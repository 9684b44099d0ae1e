import Interconnect.Proofs.Request.Verdict
import Interconnect.Proofs.Store.Membership

/-!
# Nets partition their members

The members of a net are distinct ports, pins and declarations, and they are exactly the objects
that refer to the net, so that no object is in two nets.  That is read off the ties of a reachable
store.

A connection that creates something adds one net.  What the plan created is distinct already, so
the net lists it as it was returned, and the store after the request is reachable, too: the
members refer back because they are listed.
-/

namespace Interconnect.Store

/-- Every net lists distinct ports, pins and declarations, and those that it lists are those that
refer to it. -/
structure Partitioned (s : Store) : Prop where
  nodup : ∀ {net : Handle} {o : Object} {members : List Handle}, s.object? net = some o →
    o.body = .net members → members.Nodup
  kinds : ∀ {net : Handle} {o : Object} {members : List Handle}, s.object? net = some o →
    o.body = .net members → ∀ c ∈ members, ∃ x, s.object? c = some x ∧
      (x.kind = .port ∨ x.kind = .pin ∨ x.kind = .declaration)
  mem_iff : ∀ {net c : Handle} {o x : Object} {members : List Handle}, s.object? net = some o →
    o.body = .net members → s.object? c = some x → (x.net? = some net ↔ c ∈ members)
  /-- A reference leads to a net that lists the object. -/
  listed : ∀ {net c : Handle} {x : Object}, s.object? c = some x → x.net? = some net →
    ∃ o members, s.object? net = some o ∧ o.body = .net members ∧ c ∈ members
  /-- No object is in two nets. -/
  unique : ∀ {net net' c : Handle} {o o' : Object} {members members' : List Handle},
    s.object? net = some o → o.body = .net members → c ∈ members →
    s.object? net' = some o' → o'.body = .net members' → c ∈ members' → net = net'

theorem kind_of_joinsNets {o : Object} {owner : Handle} {p : Part} (hp : o.body = .part owner p)
    (hjoins : p.joinsNets = true) :
    o.kind = .port ∨ o.kind = .pin ∨ o.kind = .declaration := by
  rw [Object.kind, hp, Body.kind]
  cases p with
  | port direction net => exact Or.inl rfl
  | pin connection inverted net => exact Or.inr (Or.inl rfl)
  | declaration defaultType assigned net => exact Or.inr (Or.inr rfl)
  | _ => cases hjoins

namespace Tied

variable {s : Store} (hs : s.Tied)

include hs

/-- What a net lists refers to it. -/
theorem exists_of_mem {net c : Handle} {o : Object} {members : List Handle}
    (ho : s.object? net = some o) (hnet : o.body = .net members) (hc : c ∈ members) :
    ∃ x, s.object? c = some x ∧ x.net? = some net := by
  have hmem : c ∈ (s.ties net).2 := by
    rw [ties_of_object? ho]
    show c ∈ o.members
    rwa [Object.members_of_net hnet]
  have htarget : (s.ties c).1 = some net := hs.mem_links.1 hmem
  cases hx : s.object? c with
  | none =>
    rw [ties, hx, Option.elim_none] at htarget
    cases htarget
  | some x =>
    rw [ties_of_object? hx] at htarget
    exact ⟨x, rfl, htarget⟩

/-- What refers to a net is listed by it. -/
theorem exists_of_net? {net c : Handle} {x : Object} (hx : s.object? c = some x)
    (hnet : x.net? = some net) :
    ∃ o members, s.object? net = some o ∧ o.body = .net members ∧ c ∈ members := by
  have hmem : c ∈ (s.ties net).2 := hs.mem_links.2 (by rw [ties_of_object? hx]; exact hnet)
  cases ho : s.object? net with
  | none =>
    rw [ties, ho, Option.elim_none] at hmem
    cases hmem
  | some o =>
    rw [ties_of_object? ho] at hmem
    obtain ⟨members, hbody, hc⟩ := Object.exists_net_of_mem_members hmem
    exact ⟨o, members, rfl, hbody, hc⟩

/-- Lists and references that are inverse partition what they are about. -/
theorem partitioned : s.Partitioned := by
  constructor
  case nodup =>
    intro net o members ho hnet
    have hnodup : (s.ties net).2.Nodup := hs.nodup net
    rw [ties_of_object? ho] at hnodup
    rwa [← Object.members_of_net hnet]
  case kinds =>
    intro net o members ho hnet c hc
    obtain ⟨x, hx, hback⟩ := hs.exists_of_mem ho hnet hc
    obtain ⟨owner, p, hp, hjoins⟩ := Object.exists_part_of_net? hback
    exact ⟨x, hx, kind_of_joinsNets hp hjoins⟩
  case mem_iff =>
    intro net c o x members ho hnet hx
    constructor
    · intro hback
      obtain ⟨o', members', ho', hnet', hc⟩ := hs.exists_of_net? hx hback
      rw [ho] at ho'
      cases ho'
      rw [hnet] at hnet'
      cases hnet'
      exact hc
    · intro hc
      obtain ⟨x', hx', hback⟩ := hs.exists_of_mem ho hnet hc
      rw [hx] at hx'
      cases hx'
      exact hback
  case listed =>
    intro net c x hx hback
    exact hs.exists_of_net? hx hback
  case unique =>
    intro net net' c o o' members members' ho hnet hc ho' hnet' hc'
    obtain ⟨x, hx, hback⟩ := hs.exists_of_mem ho hnet hc
    obtain ⟨x', hx', hback'⟩ := hs.exists_of_mem ho' hnet' hc'
    rw [hx] at hx'
    cases hx'
    rw [hback] at hback'
    exact Option.some.inj hback'

end Tied

/-- A connection that creates something leaves a net with what it returned, in the same order. -/
theorem Reachable.isNet_of_connect {s : Store} (hs : s.Reachable) {signal : String}
    {source : Option Endpoint} {targets : List Endpoint} {created : List Handle}
    (hok : (s.connect signal source targets).result = .ok created) (hne : created ≠ []) :
    ∃ net, (s.connect signal source targets).store.IsNet net signal created := by
  obtain ⟨tree, o, net, htree, rfl, hrealize, hnet, -⟩ := connect_cases hok hne
  have hsignal : signal ≠ "" := (addNet_cases hnet).1
  obtain ⟨objects, hok', hrealized⟩ := hs.realize_completes
    (t := { request := "connection " ++ signal, name := signal, mode := .signal }) hsignal htree
  rw [hrealize] at hok'
  cases hok'
  have hjoined := joined_of_addNet hnet
  obtain ⟨x, hx, hbody⟩ := hjoined.object
  refine ⟨net, hjoined.found, x, hx, ?_⟩
  rw [hbody, distinct_eq_self hrealized.nodup]

/-- In every reachable store nets partition their members.  After a connection that returns
something, the net of the signal lists what was returned, in the same order, and each returned
object refers back to it. -/
theorem partitioned_of_reachable {s : Store} (hs : s.Reachable) :
    s.Partitioned ∧ ∀ (signal : String) (source : Option Endpoint) (targets : List Endpoint)
      (created : List Handle), (s.connect signal source targets).result = .ok created →
      created ≠ [] →
      ∃ net, (s.connect signal source targets).store.IsNet net signal created ∧
        ∀ c ∈ created, ∃ x, (s.connect signal source targets).store.object? c = some x ∧
          x.net? = some net := by
  refine ⟨hs.tied.partitioned, fun signal source targets created hok hne => ?_⟩
  obtain ⟨net, hfound, o, ho, hbody⟩ := hs.isNet_of_connect hok hne
  have hafter : (s.connect signal source targets).store.Reachable :=
    .exec (.request (.connection signal source targets)) hs
  exact ⟨net, ⟨hfound, o, ho, hbody⟩, fun c hc => hafter.tied.exists_of_mem ho hbody hc⟩

/-- `nested` with a net that was added by hand and one that a connection has left. -/
def netted : Store :=
  ((nested.exec (.addNet "irq" [6, 6])).store.exec
    (.request (.connection "clk" none [.plain 5, .plain 0]))).store

/-- Another signal on the way of the first. -/
theorem partitioned_netted :
    netted.netByName? "irq" = some 7 ∧ netted.netByName? "clk" = some 12 ∧ netted.Partitioned ∧
      (netted.connect "rst" none [.plain 5, .plain 0]).result = .ok [13, 14, 15, 16] ∧
      ∃ net, (netted.connect "rst" none [.plain 5, .plain 0]).store.IsNet net "rst"
          [13, 14, 15, 16] ∧
        ∀ c ∈ [13, 14, 15, 16], ∃ x,
          (netted.connect "rst" none [.plain 5, .plain 0]).store.object? c = some x ∧
            x.net? = some net := by
  have hreachable : netted.Reachable := .exec _ (.exec _ (reachable_execAll _))
  have hresult : (netted.connect "rst" none [.plain 5, .plain 0]).result = .ok [13, 14, 15, 16] :=
    rfl
  obtain ⟨hpartitioned, hconnect⟩ := partitioned_of_reachable hreachable
  exact ⟨rfl, rfl, hpartitioned, hresult, hconnect _ _ _ _ hresult (by simp)⟩

end Interconnect.Store
