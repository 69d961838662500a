import EniForwarding.Rule

/-! ENIs and their rules.

An ENI has the rules that its attributes allow: those that end tunnels need a local
endpoint, and the outbound ones a VNI. A new primary fires all rules; the same primary
fires them only if the last firing failed. One failing rule does not keep the others
from being worked on.
-/

set_option autoImplicit false

namespace EniForwarding

structure Eni where
  attributes : EniAttributes
  rules : List Rule
  needsRefire : Bool
  deriving DecidableEq, Repr

namespace Eni

def roles (a : EniAttributes) (dpus : Dpus) : List Role :=
  Role.all.filter fun role =>
    (!role.isTerm || (a.localEndpoint dpus).isSome) && (!role.isOutbound || a.vni.isSome)

def ofAttributes (a : EniAttributes) (dpus : Dpus) (table : String) : Eni :=
  ⟨a, (roles a dpus).map fun role => .ofRole role (a.key.ruleKey table role), false⟩

def declare (key : EniKey) (fields : Fields) (ctx : Context) : Except Failure Eni := do
  let vni := ctx.env.inventory.vni? key.vnet
  let a ← orFail (EniAttributes.ofFields key vni fields)
  return ofAttributes a ctx.dpus ctx.table

def rule? (eni : Eni) (role : Role) : Option Rule := eni.rules.find? (·.role == role)

def localEndpoint (eni : Eni) (dpus : Dpus) : Option UInt64 := eni.attributes.localEndpoint dpus

abbrev Step (α : Type) := Action (Eni × Context) α

def onRules (x : Rule.Step Unit) : Step Unit := fun (eni, ctx) =>
  let (result, rules, ctx) := Action.sweep x (eni.rules, ctx)
  (result, { eni with rules := rules }, ctx)

def fireAll : Step Unit := fun (eni, ctx) =>
  match onRules (Rule.fire eni.attributes) (eni, ctx) with
  | (.ok (), eni, ctx) => (.ok (), { eni with needsRefire := false }, ctx)
  | (.error e, eni, ctx) => (.error e, { eni with needsRefire := true }, ctx)

/-- Follow an entry for an ENI that exists: only the primary can change. -/
def update (fields : Fields) : Step Unit := do
  let primary ← Action.lift (orFail (fields.require UInt64 EniAttributes.primaryField))
  let (eni, _) ← Action.get
  if primary = eni.attributes.primary ∧ eni.needsRefire = false then return ()
  else
    Action.modify fun (eni, ctx) =>
      ({ eni with attributes := { eni.attributes with primary := primary } }, ctx)
    fireAll

/-- Follow news about a neighbor. Rules stay when a neighbor goes. -/
def onNeighbor (added : Bool) : Step Unit := if added then fireAll else return ()

/-- Take every rule off the switch; the rules are forgotten if all of it succeeds. -/
def destroy : Step Unit := do
  onRules Rule.destroy
  Action.modify fun (eni, ctx) => ({ eni with rules := [] }, ctx)

end Eni

end EniForwarding
