import EniForwarding.Proofs.Rule.Aim

/-! Other surroundings in which the same can be looked up.

Between two attempts on a rule other calls may be planned to fail, the switch may start or
cease to refuse calls, and the VIP may come and go. As long as interfaces, neighbors and
tunnels are found as before, a rule aims where it aimed.
-/

set_option autoImplicit false

namespace EniForwarding

/-- Interfaces, neighbors and tunnels are found alike. -/
structure Inventory.Agrees (i i' : Inventory) : Prop where
  interfaces : ∀ ip, i'.alias? ip = i.alias? ip
  neighbors : ∀ n, i'.isResolved n = i.isResolved n
  tunnels : ∀ vnet, i'.tunnel? vnet = i.tunnel? vnet

structure Outlook.Agrees (o o' : Outlook) : Prop where
  dpus : o'.dpus = o.dpus
  reaches : ∀ ip, o'.reaches ip = o.reaches ip
  tunnels : ∀ vnet, o'.inventory.tunnel? vnet = o.inventory.tunnel? vnet

section agrees

variable {o o' o'' : Outlook}

theorem Outlook.Agrees.of_eq (same : o' = o) : o.Agrees o' := by
  subst same
  exact ⟨rfl, fun _ => rfl, fun _ => rfl⟩

theorem Outlook.Agrees.trans (first : o.Agrees o') (second : o'.Agrees o'') : o.Agrees o'' where
  dpus := second.dpus.trans first.dpus
  reaches ip := (second.reaches ip).trans (first.reaches ip)
  tunnels vnet := (second.tunnels vnet).trans (first.tunnels vnet)

theorem NextHop.settled_eq (agrees : o.Agrees o') (h : NextHop) : h.settled o' = h.settled o := by
  rcases h with ⟨ip, resolved⟩ | ⟨ip, vnet, _ | tunnel⟩
  · simp only [settled, agrees.reaches]
  · simp only [settled, agrees.tunnels]
  · rfl

theorem Rule.aim_eq (agrees : o.Agrees o') (a : EniAttributes) (r : Rule) : r.aim o' a = r.aim o a := by
  simp only [aim, agrees.dpus, NextHop.settled_eq agrees]

end agrees

namespace Context

def surround (inventory : Inventory) (faults : Faults) (rejectsAcl rejectsTunnels : Bool)
    (c : Context) : Context :=
  let switch := { c.env.switch with rejectsAcl := rejectsAcl, rejectsTunnels := rejectsTunnels }
  { c with env := { c.env with inventory := inventory, switch := switch, faults := faults } }

/-- The same context in other surroundings, where the same can be looked up but for the VIP. -/
inductive Around (c : Context) : Context → Prop
  | intro (inventory : Inventory) (faults : Faults) (rejectsAcl rejectsTunnels : Bool)
      (agrees : c.env.inventory.Agrees inventory) :
      Around c (c.surround inventory faults rejectsAcl rejectsTunnels)

theorem around_surround (c : Context) (faults : Faults) (rejectsAcl rejectsTunnels : Bool) :
    c.Around (c.surround c.env.inventory faults rejectsAcl rejectsTunnels) :=
  .intro c.env.inventory faults rejectsAcl rejectsTunnels ⟨fun _ => rfl, fun _ => rfl, fun _ => rfl⟩

section around

variable {c c' : Context} (around : c.Around c')

include around

theorem Around.agrees : c.outlook.Agrees c'.outlook := by
  cases around with
  | intro inventory faults rejectsAcl rejectsTunnels agrees =>
    refine ⟨rfl, fun ip => ?_, agrees.tunnels⟩
    simp only [Outlook.reaches, outlook, surround, agrees.interfaces, agrees.neighbors]

theorem Around.quiet : c.Quiet c' := by
  cases around with
  | intro inventory faults rejectsAcl rejectsTunnels =>
    exact .learn c inventory faults c.env.aliasLookups rejectsAcl rejectsTunnels c.dpus c.aliases
      c.vip fun _ => id

theorem Around.tunnels : c'.tunnels = c.tunnels := by
  cases around
  rfl

theorem Around.trace : c'.env.trace = c.env.trace := by
  cases around
  rfl

theorem Around.base : c'.basePriority = c.basePriority := around.quiet.fixed.2

theorem Around.users (hop : TunnelHop) : c'.users hop = c.users hop := by
  rw [Context.users, around.tunnels, Context.users]

end around

end Context

end EniForwarding
