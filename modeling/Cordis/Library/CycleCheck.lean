import Mathlib.Logic.Relation
import Mathlib.Data.List.Nodup
import Mathlib.Data.Finset.Card
import Mathlib.Tactic.Common

/-!
# Cycle detection by depth-first search

`check succ fuel keys` visits every key depth first along `succ` and fails with the current path
when it meets a node that is still being visited. It succeeds exactly when no key lies on a cycle,
given enough fuel for the longest path.
-/

namespace CycleCheck

open Relation

variable {α : Type*} (succ : α → List α)

/-- The edge relation of a successor function. -/
def Edge (a b : α) : Prop := b ∈ succ a

/-- Visits `node`; `visiting` is the path to it, innermost first. The answer is the visited nodes, or
the path that closed a cycle. -/
def visit [DecidableEq α] : Nat → List α → List α → α → Except (List α) (List α)
  | 0, visiting, _, node => .error (node :: visiting)
  | fuel + 1, visiting, visited, node =>
    if node ∈ visiting then .error (node :: visiting)
    else if node ∈ visited then .ok visited
    else (succ node).foldlM (fun seen target => visit fuel (node :: visiting) seen target)
      (node :: visited)

/-- Visits every key. -/
def check [DecidableEq α] (fuel : Nat) (keys : List α) : Except (List α) (List α) :=
  keys.foldlM (fun seen key => visit succ fuel [] seen key) []

/-! ## Soundness -/

/-- The nodes that were visited and left again have only such successors, and lie on no cycle. -/
def Settled (visiting visited : List α) : Prop :=
  ∀ x ∈ visited, x ∉ visiting →
    (∀ y ∈ succ x, y ∈ visited ∧ y ∉ visiting) ∧ ¬ TransGen (Edge succ) x x

variable {succ}

theorem settled_reach {visiting visited : List α} (h : Settled succ visiting visited) {x y : α}
    (hx : x ∈ visited ∧ x ∉ visiting) (hxy : ReflTransGen (Edge succ) x y) :
    y ∈ visited ∧ y ∉ visiting := by
  induction hxy with
  | refl => exact hx
  | tail _ hyz ih => exact (h _ ih.1 ih.2).1 _ hyz

/-- What a successful visit of `node` establishes. -/
structure Visited (succ : α → List α) (visiting visited visited' : List α) (node : α) : Prop where
  settled : Settled succ visiting visited'
  grown : visited ⊆ visited'
  done : node ∈ visited' ∧ node ∉ visiting

theorem visited_foldlM {visiting : List α} {f : List α → α → Except (List α) (List α)}
    (hf : ∀ seen node seen', Settled succ visiting seen → f seen node = .ok seen' →
      Visited succ visiting seen seen' node) (nodes : List α) :
    ∀ seen seen', Settled succ visiting seen → nodes.foldlM f seen = .ok seen' →
      Settled succ visiting seen' ∧ seen ⊆ seen' ∧ ∀ n ∈ nodes, n ∈ seen' ∧ n ∉ visiting := by
  induction nodes with
  | nil =>
    intro seen seen' h hrun
    obtain rfl : seen = seen' := by simpa [pure, Except.pure] using hrun
    exact ⟨h, fun _ hx => hx, by simp⟩
  | cons n rest ih =>
    intro seen seen' h hrun
    rw [List.foldlM_cons] at hrun
    cases hn : f seen n with
    | error e => simp [hn, bind, Except.bind] at hrun
    | ok mid =>
      have hone := hf seen n mid h hn
      have hrest : rest.foldlM f mid = .ok seen' := by
        simpa [hn, bind, Except.bind] using hrun
      obtain ⟨hset, hgrow, hall⟩ := ih mid seen' hone.settled hrest
      refine ⟨hset, fun x hx => hgrow (hone.grown hx), ?_⟩
      intro x hx
      rcases List.mem_cons.mp hx with rfl | hx
      · exact ⟨hgrow hone.done.1, hone.done.2⟩
      · exact hall x hx

variable [DecidableEq α]

theorem visited_of_visit : ∀ (fuel : Nat) (visiting visited : List α) (node : α)
    (visited' : List α), Settled succ visiting visited →
      visit succ fuel visiting visited node = .ok visited' →
      Visited succ visiting visited visited' node := by
  intro fuel
  induction fuel with
  | zero =>
    intro visiting visited node visited' _ hrun
    simp [visit] at hrun
  | succ fuel ih =>
    intro visiting visited node visited' h hrun
    rw [visit] at hrun
    split_ifs at hrun with hpath hseen
    · obtain rfl : visited = visited' := by simpa using hrun
      exact ⟨h, fun _ hx => hx, hseen, hpath⟩
    · -- while the successors are visited, `node` itself is on the path
      have hinner : Settled succ (node :: visiting) (node :: visited) := by
        intro x hx hout
        rw [List.mem_cons, not_or] at hout
        have hx' : x ∈ visited := (List.mem_cons.mp hx).resolve_left hout.1
        obtain ⟨hsucc, hcycle⟩ := h x hx' hout.2
        refine ⟨fun y hy => ⟨List.mem_cons_of_mem _ (hsucc y hy).1, ?_⟩, hcycle⟩
        rw [List.mem_cons, not_or]
        refine ⟨?_, (hsucc y hy).2⟩
        rintro rfl
        exact hseen (hsucc y hy).1
      obtain ⟨hset, hgrow, hall⟩ := visited_foldlM
        (fun seen target seen' hs hv => ih (node :: visiting) seen target seen' hs hv)
        (succ node) (node :: visited) visited' hinner hrun
      have hnode : ¬ TransGen (Edge succ) node node := by
        intro hcycle
        -- the cycle leaves `node` to a settled successor and never comes back
        obtain ⟨y, hy, hreach⟩ := TransGen.head'_iff.mp hcycle
        have hback := settled_reach hset (hall y hy) hreach
        simp at hback
      refine ⟨fun x hx hout => ?_, fun x hx => hgrow (List.mem_cons_of_mem _ hx),
        hgrow List.mem_cons_self, hpath⟩
      by_cases hxn : x = node
      · subst hxn
        refine ⟨fun y hy => ⟨(hall y hy).1, fun hy' => (hall y hy).2 ?_⟩, hnode⟩
        exact List.mem_cons_of_mem _ hy'
      · obtain ⟨hsucc, hcycle⟩ := hset x hx (by simp [hxn, hout])
        exact ⟨fun y hy => ⟨(hsucc y hy).1, fun hy' =>
          (hsucc y hy).2 (List.mem_cons_of_mem _ hy')⟩, hcycle⟩

/-- **Soundness.** When the check succeeds, no key lies on a cycle. -/
theorem acyclic_of_check {fuel : Nat} {keys visited : List α}
    (h : check succ fuel keys = .ok visited) : ∀ x ∈ keys, ¬ TransGen (Edge succ) x x := by
  have hempty : Settled succ [] [] := by simp [Settled]
  obtain ⟨hset, -, hall⟩ := visited_foldlM
    (fun seen key seen' hs hv => visited_of_visit fuel [] seen key seen' hs hv)
    keys [] visited hempty h
  intro x hx
  exact (hset x (hall x hx).1 (hall x hx).2).2

/-! ## Completeness -/

/-- Without a cycle, and with fuel for the nodes that are not on the path yet, a visit succeeds. -/
theorem visit_ok {nodes : List α} (hclosed : ∀ x ∈ nodes, ∀ y ∈ succ x, y ∈ nodes)
    (hacyclic : ∀ x, ¬ TransGen (Edge succ) x x) : ∀ (fuel : Nat) (visiting visited : List α)
      (node : α), node ∈ nodes → visiting.Nodup → visiting ⊆ nodes →
      (∀ p ∈ visiting, TransGen (Edge succ) p node) → nodes.length < fuel + visiting.length →
      ∃ visited', visit succ fuel visiting visited node = .ok visited' := by
  intro fuel
  induction fuel with
  | zero =>
    intro visiting visited node _ hnodup hsub _ hfuel
    have := (hnodup.subperm hsub).length_le
    omega
  | succ fuel ih =>
    intro visiting visited node hnode hnodup hsub hpath hfuel
    have hfresh : node ∉ visiting := fun h => hacyclic node (hpath node h)
    rw [visit, if_neg hfresh]
    split_ifs with hseen
    · exact ⟨visited, rfl⟩
    · have hall : ∀ targets : List α, targets ⊆ succ node → ∀ seen, ∃ seen',
          targets.foldlM (fun seen target => visit succ fuel (node :: visiting) seen target) seen
            = .ok seen' := by
        intro targets
        induction targets with
        | nil => exact fun _ seen => ⟨seen, rfl⟩
        | cons target rest ihr =>
          intro hsucc seen
          have htarget : target ∈ succ node := hsucc List.mem_cons_self
          obtain ⟨mid, hmid⟩ := ih (node :: visiting) seen target (hclosed node hnode target htarget)
            (List.nodup_cons.mpr ⟨hfresh, hnodup⟩) (by simpa [hnode] using hsub)
            (fun p hp => by
              rcases List.mem_cons.mp hp with rfl | hp
              · exact .single htarget
              · exact (hpath p hp).tail htarget)
            (by rw [List.length_cons]; omega)
          obtain ⟨seen', hrest⟩ := ihr (fun _ h => hsucc (List.mem_cons_of_mem _ h)) mid
          exact ⟨seen', by simpa [hmid, bind, Except.bind] using hrest⟩
      exact hall (succ node) (fun _ h => h) _

/-- **Completeness.** Over an acyclic graph the check succeeds when the fuel exceeds the number of
nodes. -/
theorem check_ok {nodes keys : List α} {fuel : Nat} (hkeys : keys ⊆ nodes)
    (hclosed : ∀ x ∈ nodes, ∀ y ∈ succ x, y ∈ nodes)
    (hacyclic : ∀ x, ¬ TransGen (Edge succ) x x) (hfuel : nodes.length < fuel) :
    ∃ visited, check succ fuel keys = .ok visited := by
  suffices h : ∀ seen, ∃ visited,
      keys.foldlM (fun seen key => visit succ fuel [] seen key) seen = .ok visited from h []
  induction keys with
  | nil => exact fun seen => ⟨seen, rfl⟩
  | cons key rest ih =>
    intro seen
    obtain ⟨mid, hmid⟩ := visit_ok hclosed hacyclic fuel [] seen key (hkeys List.mem_cons_self)
      List.nodup_nil (by simp) (by simp) (by simpa using hfuel)
    obtain ⟨visited, hrest⟩ := ih (fun _ h => hkeys (List.mem_cons_of_mem _ h)) mid
    exact ⟨visited, by simpa [hmid, bind, Except.bind] using hrest⟩

end CycleCheck
