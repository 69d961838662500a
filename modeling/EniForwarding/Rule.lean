import EniForwarding.Eni.Attributes
import EniForwarding.NextHop

/-! Redirecting rules of an ENI.

Inbound and outbound rules follow the primary DPU; the rules that end tunnels lead to
the local endpoint. Firing a rule brings the switch in line with the attributes of its
ENI: an installed rule is deleted before its next hop changes, the old next hop is
given back before a new one is taken, and the rule is written once its next hop is
resolved. A rule whose endpoint makes no sense before it was ever installed fails for
good; an installed one stays as it is.
-/

set_option autoImplicit false

namespace EniForwarding

inductive RuleState where
  | pending
  | installed
  | uninstalled
  | failed
  deriving DecidableEq, Repr

namespace RuleState

instance : Inhabited RuleState := ⟨.pending⟩

def all : List RuleState := [.pending, .installed, .uninstalled, .failed]

def name : RuleState → String
  | .pending => "pending"
  | .installed => "installed"
  | .uninstalled => "uninstalled"
  | .failed => "failed"

end RuleState

structure Rule where
  role : Role
  key : String
  state : RuleState
  nextHop : Option NextHop
  deriving DecidableEq, Repr

structure Target where
  placement : Placement
  address : Net.Address
  deriving DecidableEq, Repr

/-- How a rule differs from what it should be. -/
inductive Change where
  | create
  | move
  | refresh
  | none
  deriving DecidableEq, Repr

def Change.name : Change → String
  | .create => "Create"
  | .move => "PrimaryUpdate"
  | .refresh => "Refresh"
  | .none => "Idempotent"

namespace Rule

/-- A rule that has not been worked on. -/
def ofRole (role : Role) (key : String) : Rule := ⟨role, key, .pending, none⟩

def targetDpu (role : Role) (eni : EniAttributes) (dpus : Dpus) : Except Failure UInt64 :=
  if role.isTerm then
    match eni.localEndpoint dpus with
    | some id => .ok id
    | none => .error (.invalidEndpoint (eni.key.render ++ " has no local DPU"))
  else .ok eni.primary

/-- Where the rule should send its traffic: to the DPU on the switch, or to the network
unit of a DPU elsewhere. -/
def target (role : Role) (eni : EniAttributes) (dpus : Dpus) : Except Failure Target := do
  let id ← targetDpu role eni dpus
  let idText := Text.renderRadix 10 id.toNat
  match dpus.get? id with
  | none => throw (.invalidEndpoint ("DPU " ++ idText ++ " is unknown"))
  | some dpu =>
    let address? :=
      match dpu.placement with
      | .onSwitch => dpu.pa
      | .inCluster => dpu.npu
    match address? with
    | some address => return ⟨dpu.placement, address⟩
    | none =>
      throw (.invalidEndpoint
        ("DPU " ++ idText ++ " has no address for a " ++ dpu.placement.name ++ " next hop"))

def change (r : Rule) (t : Target) : Change :=
  match r.nextHop with
  | none => .create
  | some hop =>
    if hop.placement ≠ t.placement ∨ hop.endpoint ≠ t.address then .move
    else if hop.isResolved ∧ r.state = .installed then .none
    else .refresh

def macField (role : Role) (eni : EniAttributes) : Acl.MatchField :=
  if role = .outbound then eni.macDirection.field else .innerDstMac

/-- The priority of the rule: the base and the role's ordinal, up to the greatest value. -/
def priority (base : UInt32) (role : Role) : Nat := min (base.toNat + role.ordinal) (UInt32.size - 1)

def fields (role : Role) (eni : EniAttributes) (base : UInt32) (vip : Net.Prefix)
    (redirect : String) : Fields :=
  [("PRIORITY", Text.renderRadix 10 (priority base role)),
    (Acl.MatchField.name .dstIp, vip.render),
    ((macField role eni).name, eni.key.mac.render)] ++
  (if role.isOutbound then
    eni.vni.toList.map fun vni => (Acl.MatchField.name .tunnelVni, Text.renderRadix 10 vni.toNat)
  else []) ++
  (if role.isTerm then [(Acl.MatchField.name .tunnelTerm, "true")] else []) ++
  [(Acl.ActionKind.name .redirect, redirect)]

def record (r : Rule) (category : Audit.Category) (action : String) : Audit.Record :=
  (((Audit.Record.begun category auditSource action).withOutcome .success).withObjectId
    r.key).withObjectType "acl_rule"

abbrev Step (α : Type) := Action (Rule × Context) α

def update (f : Rule → Rule) : Step Unit := .modify fun (r, ctx) => (f r, ctx)

def uninstall (category : Audit.Category) : Step Unit := do
  let (r, _) ← Action.get
  let record := r.record category "remove_rule"
  Action.onSecond (Context.auditFailure record (Context.deleteRule r.key))
  Action.onSecond (Context.audit record)
  update fun r => { r with state := .uninstalled }

def dropNextHop : Step Unit := do
  let (r, _) ← Action.get
  match r.nextHop with
  | none => return ()
  | some hop =>
    let _ ← Action.onSecond hop.release
    update fun r => { r with nextHop := none }

/-- Exchange the next hop for one toward a target. -/
def retarget (t : Target) (vnet : String) : Step Unit := do
  dropNextHop
  update fun r => { r with nextHop := some (.toward t.placement t.address vnet) }

def install (eni : EniAttributes) (change : Change) (redirect : String) : Step Unit := do
  let vip ← Action.onSecond Context.findVip
  let (r, ctx) ← Action.get
  let record := r.record .resourceCreate "install_rule"
  Action.onSecond <| Context.auditFailure record <|
    Context.setRule r.key (fields r.role eni ctx.basePriority vip redirect)
  Action.onSecond <| Context.audit <| record.withDetails <| .object [
    ("eni", .string eni.key.render),
    ("redirect", .string redirect),
    ("update", .string change.name)]
  update fun r => { r with state := .installed }

def settle (eni : EniAttributes) (change : Change) : Step Unit := do
  let (r, _) ← Action.get
  match r.nextHop with
  | none => return ()
  | some hop =>
    let hop ← Action.onSecond hop.resolve
    update fun r => { r with nextHop := some hop }
    if hop.isResolved then install eni change hop.target
    else update fun r => { r with state := .pending }

def pursue (eni : EniAttributes) (t : Target) : Step Unit := do
  let (r, _) ← Action.get
  match r.change t with
  | .none => return ()
  | .refresh => settle eni .refresh
  | .create =>
    retarget t eni.key.vnet
    settle eni .create
  | .move =>
    if r.state = .installed then uninstall .resourceModify
    retarget t eni.key.vnet
    settle eni .move

/-- Bring the switch in line with the attributes of the ENI. -/
def fire (eni : EniAttributes) : Step Unit := do
  let (r, ctx) ← Action.get
  if r.state = .failed then return ()
  else
    match target r.role eni ctx.dpus with
    | .ok t => pursue eni t
    | .error _ =>
      if r.state = .pending then update fun r => { r with state := .failed } else return ()

def destroy : Step Unit := do
  let (r, _) ← Action.get
  if r.state = .installed then uninstall .resourceDelete
  dropNextHop

end Rule

end EniForwarding
