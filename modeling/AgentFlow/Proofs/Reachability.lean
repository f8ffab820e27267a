import AgentFlow.Flow.Compile
import Mathlib.Data.Finset.Card
import Mathlib.Data.List.Dedup
import Mathlib.Logic.Relation

/-!
# The walk from the start reaches all that paths reach

`reachable` walks breadth-first with a bound on its steps. The names it has seen are closed under
routes, but for the opened ones; every step closes one, and opens only targets that were not seen
before. The opened names and the targets not yet seen are therefore one fewer after each step, and
the bound, one more than the number of routes, is never what ends the walk. `mem_reachable_iff`
says that the walk sees exactly the names at the end of a path.
-/

namespace AgentFlow

namespace RouteTable

/-- A route leads from one name to another. -/
def Leads (table : RouteTable) (source target : String) : Prop :=
  ∃ route ∈ table.from source, route.target = target

/-- The targets of a name's routes that were not seen before, each once. -/
def fresh (table : RouteTable) (seen : List String) (name : String) : List String :=
  ((table.from name).map Route.target).eraseDups.filter fun target => !seen.contains target

/-- The targets of all routes that were not seen before. -/
def unseen (table : RouteTable) (seen : List String) : Finset String :=
  ((table.flatMap fun entry => entry.2).map Route.target).toFinset \ seen.toFinset

end RouteTable

/-- The first occurrences of the members of a list are distinct. -/
theorem nodup_eraseDups (names : List String) : names.eraseDups.Nodup := by
  induction h : names.length using Nat.strong_induction_on generalizing names with
  | h n ih =>
    cases names with
    | nil => simp
    | cons name rest =>
      rw [List.eraseDups_cons, List.nodup_cons]
      refine ⟨by simp, ih _ ?_ _ rfl⟩
      rw [← h]
      exact Nat.lt_succ_of_le (List.length_filter_le _ _)

namespace RouteTable

variable {table : RouteTable} {seen : List String} {name target : String}

/-- The fresh targets of a name are those that a route leads to and that were not seen. -/
theorem mem_fresh : target ∈ table.fresh seen name ↔ table.Leads name target ∧ target ∉ seen := by
  simp [fresh, Leads]

/-- No fresh target is listed twice. -/
theorem nodup_fresh (table : RouteTable) (seen : List String) (name : String) :
    (table.fresh seen name).Nodup :=
  (nodup_eraseDups _).filter _

/-- The routes out of a source are routes of the table. -/
theorem Leads.mem_targets (h : table.Leads name target) :
    target ∈ (table.flatMap fun entry => entry.2).map Route.target := by
  obtain ⟨route, hroute, rfl⟩ := h
  refine List.mem_map_of_mem (List.mem_flatMap.2 ?_)
  unfold RouteTable.from at hroute
  cases hl : table.lookup name with
  | none => simp [hl] at hroute
  | some routes =>
    obtain ⟨before, after, rfl, -⟩ := List.lookup_eq_some_iff.1 hl
    exact ⟨(name, routes), by simp, by simpa [hl] using hroute⟩

/-- Fresh targets are seen from then on. -/
theorem card_unseen_append (table : RouteTable) (seen : List String) (name : String) :
    (table.unseen (seen ++ table.fresh seen name)).card + (table.fresh seen name).length =
      (table.unseen seen).card := by
  have hsub : (table.fresh seen name).toFinset ⊆ table.unseen seen := by
    intro target ht
    obtain ⟨hl, hs⟩ := mem_fresh.1 (List.mem_toFinset.1 ht)
    exact Finset.mem_sdiff.2 ⟨List.mem_toFinset.2 hl.mem_targets, by simpa using hs⟩
  have hcard := List.toFinset_card_of_nodup (nodup_fresh table seen name)
  have hsplit : table.unseen (seen ++ table.fresh seen name) =
      table.unseen seen \ (table.fresh seen name).toFinset := by
    unfold unseen
    rw [List.toFinset_append, sdiff_sdiff_left, Finset.sup_eq_union]
  rw [hsplit, ← hcard]
  exact Finset.card_sdiff_add_card_eq_card hsub

end RouteTable

/-! ## The walk -/

variable {table : RouteTable}

/-- A step of the walk opens the first name, and its fresh targets are seen. -/
theorem reach_cons (steps : Nat) (name : String) (opened seen : List String) :
    reach table (steps + 1) (name :: opened) seen =
      reach table steps (opened ++ table.fresh seen name) (seen ++ table.fresh seen name) :=
  rfl

/-- What holds of the names seen, and goes over from a name to the targets of its routes, holds of
all names that the walk sees. -/
theorem forall_mem_reach {P : String → Prop} (hP : ∀ a b, P a → table.Leads a b → P b) :
    ∀ (steps : Nat) (opened seen : List String), (∀ a ∈ opened, P a) → (∀ a ∈ seen, P a) →
      ∀ a ∈ reach table steps opened seen, P a
  | 0, _, _, _, hs => hs
  | _ + 1, [], _, _, hs => hs
  | steps + 1, name :: opened, seen, ho, hs => by
    have hfresh : ∀ a ∈ table.fresh seen name, P a := fun a ha =>
      hP name a (ho name List.mem_cons_self) (RouteTable.mem_fresh.1 ha).1
    rw [reach_cons]
    refine forall_mem_reach hP steps _ _ (fun a ha => ?_) fun a ha => ?_
    · exact (List.mem_append.1 ha).elim (fun h => ho a (List.mem_cons_of_mem _ h)) (hfresh a)
    · exact (List.mem_append.1 ha).elim (hs a) (hfresh a)

/-- The names that are not opened have all their targets among the names seen. -/
def Frontier (table : RouteTable) (opened seen : List String) : Prop :=
  ∀ a ∈ seen, a ∈ opened ∨ ∀ b, table.Leads a b → b ∈ seen

/-- Opening a name's fresh targets closes the name. -/
theorem Frontier.next {name : String} {opened seen : List String}
    (h : Frontier table (name :: opened) seen) :
    Frontier table (opened ++ table.fresh seen name) (seen ++ table.fresh seen name) := by
  have hname : ∀ b, table.Leads name b → b ∈ seen ++ table.fresh seen name := fun b hb => by
    by_cases hs : b ∈ seen
    · exact List.mem_append_left _ hs
    · exact List.mem_append_right _ (RouteTable.mem_fresh.2 ⟨hb, hs⟩)
  intro a ha
  rcases List.mem_append.1 ha with ha | ha
  · rcases h a ha with ha | hclosed
    · rcases List.mem_cons.1 ha with rfl | ha
      · exact .inr hname
      · exact .inl (List.mem_append_left _ ha)
    · exact .inr fun b hb => List.mem_append_left _ (hclosed b hb)
  · exact .inl (List.mem_append_right _ ha)

variable (table) in
/-- With steps enough, the walk sees what was seen, and with every name the targets of its
routes. -/
theorem reach_closed : ∀ (steps : Nat) (opened seen : List String), Frontier table opened seen →
    opened.length + (table.unseen seen).card ≤ steps →
      (∀ a ∈ seen, a ∈ reach table steps opened seen) ∧
        ∀ a ∈ reach table steps opened seen, ∀ b, table.Leads a b →
          b ∈ reach table steps opened seen
  | 0, opened, seen, hf, hsteps => by
    have hnone : opened = [] := List.eq_nil_of_length_eq_zero (by omega)
    subst hnone
    exact ⟨fun _ ha => ha, fun a ha => (hf a ha).resolve_left List.not_mem_nil⟩
  | _ + 1, [], seen, hf, _ =>
    ⟨fun _ ha => ha, fun a ha => (hf a ha).resolve_left List.not_mem_nil⟩
  | steps + 1, name :: opened, seen, hf, hsteps => by
    -- One name less is opened, and every name that is opened instead is no longer unseen.
    have hcard := RouteTable.card_unseen_append table seen name
    have hlen : (opened ++ table.fresh seen name).length +
        (table.unseen (seen ++ table.fresh seen name)).card ≤ steps := by
      rw [List.length_append]
      rw [List.length_cons] at hsteps
      omega
    obtain ⟨hseen, hclosed⟩ := reach_closed steps _ _ hf.next hlen
    rw [reach_cons]
    exact ⟨fun a ha => hseen a (List.mem_append_left _ ha), hclosed⟩

/-- The walk from the start sees exactly the names at the end of a path of routes. -/
theorem mem_reachable_iff (name : String) :
    name ∈ reachable table ↔ Relation.ReflTransGen table.Leads startName name := by
  have hsteps : [startName].length + (table.unseen [startName]).card ≤
      (table.flatMap fun entry => entry.2).length + 1 := by
    have hle : (table.unseen [startName]).card ≤ (table.flatMap fun entry => entry.2).length :=
      calc (table.unseen [startName]).card
          ≤ (((table.flatMap fun entry => entry.2).map Route.target).toFinset).card :=
            Finset.card_le_card Finset.sdiff_subset
        _ ≤ ((table.flatMap fun entry => entry.2).map Route.target).length :=
            List.toFinset_card_le _
        _ = (table.flatMap fun entry => entry.2).length := List.length_map _
    rw [List.length_singleton]
    omega
  obtain ⟨hstart, hclosed⟩ := reach_closed table _ [startName] [startName]
    (fun _ ha => .inl ha) hsteps
  -- What is seen has a path, and what is closed under routes has all that paths reach.
  constructor
  · refine forall_mem_reach (fun _ _ ha hb => ha.tail hb) _ _ _ ?_ ?_ name <;>
      exact fun a ha => List.mem_singleton.1 ha ▸ .refl
  · intro h
    induction h with
    | refl => exact hstart _ List.mem_cons_self
    | tail _ hb ih => exact hclosed _ ih _ hb

end AgentFlow
