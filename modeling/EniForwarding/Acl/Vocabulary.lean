import EniForwarding.Text.Keyword

/-! The words of access control lists.

Stages, bind points, match fields and actions have names in upper case, which are
read in either case. A link aggregation group has two names as a bind point.
-/

set_option autoImplicit false

namespace EniForwarding.Acl

/-- Words of one sort, with what each of them names. -/
structure Vocabulary (α : Type) where
  sort : String
  words : List (String × α)

/-- A text that is no word of its vocabulary. -/
structure UnknownWord where
  sort : String
  text : String
  deriving DecidableEq, Repr

def UnknownWord.message (e : UnknownWord) : String := "Unknown " ++ e.sort ++ ": " ++ e.text

def Vocabulary.read {α : Type} (v : Vocabulary α) (text : String) : Except UnknownWord α :=
  match v.words.find? fun word => word.1.toList == Text.upper text with
  | some word => .ok word.2
  | none => .error ⟨v.sort, text⟩

inductive Stage where
  | ingress
  | egress
  deriving DecidableEq, Repr

namespace Stage

instance : Inhabited Stage := ⟨.ingress⟩

def name : Stage → String
  | .ingress => "INGRESS"
  | .egress => "EGRESS"

def vocabulary : Vocabulary Stage :=
  ⟨"ACL stage", [.ingress, .egress].map fun stage => (stage.name, stage)⟩

end Stage

inductive BindPoint where
  | port
  | portChannel
  deriving DecidableEq, Repr

namespace BindPoint

def name : BindPoint → String
  | .port => "PORT"
  | .portChannel => "PORTCHANNEL"

def vocabulary : Vocabulary BindPoint :=
  ⟨"ACL bind point type",
    [(port.name, port), (portChannel.name, portChannel), ("LAG", portChannel)]⟩

end BindPoint

inductive MatchField where
  | tunnelVni
  | dstIp
  | innerSrcMac
  | innerDstMac
  | tunnelTerm
  deriving DecidableEq, Repr

namespace MatchField

def all : List MatchField := [.tunnelVni, .dstIp, .innerSrcMac, .innerDstMac, .tunnelTerm]

def name : MatchField → String
  | .tunnelVni => "TUNNEL_VNI"
  | .dstIp => "DST_IP"
  | .innerSrcMac => "INNER_SRC_MAC"
  | .innerDstMac => "INNER_DST_MAC"
  | .tunnelTerm => "TUNNEL_TERM"

def vocabulary : Vocabulary MatchField :=
  ⟨"ACL match field", all.map fun field => (field.name, field)⟩

end MatchField

inductive ActionKind where
  | redirect
  deriving DecidableEq, Repr

namespace ActionKind

def name : ActionKind → String
  | .redirect => "REDIRECT_ACTION"

def vocabulary : Vocabulary ActionKind := ⟨"ACL action", [(redirect.name, redirect)]⟩

end ActionKind

end EniForwarding.Acl
