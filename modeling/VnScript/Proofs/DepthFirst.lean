import Mathlib.Data.Finset.Card
import Mathlib.Data.List.Nodup
import Mathlib.Logic.Relation

namespace VnScript

open Relation

section Outside

variable {α : Type} [DecidableEq α]

/-- How many vertices of a finite graph have not been seen. -/
def countOutside (vertices seen : List α) : Nat := (vertices.toFinset \ seen.toFinset).card

theorem countOutside_le (vertices : List α) {seen seen' : List α} (h : seen ⊆ seen') :
    countOutside vertices seen' ≤ countOutside vertices seen := by
  apply Finset.card_le_card
  apply Finset.sdiff_subset_sdiff (Finset.Subset.refl _)
  intro n hn
  rw [List.mem_toFinset] at hn ⊢
  exact h hn

theorem countOutside_lt {vertices seen seen' : List α} {n : α} (h : seen ⊆ seen')
    (hu : n ∈ vertices) (hn : n ∉ seen) (hn' : n ∈ seen') :
    countOutside vertices seen' < countOutside vertices seen := by
  have hle : vertices.toFinset \ seen'.toFinset ⊆ vertices.toFinset \ seen.toFinset := by
    intro m hm
    simp only [Finset.mem_sdiff, List.mem_toFinset] at hm ⊢
    exact ⟨hm.1, fun hs => hm.2 (h hs)⟩
  apply Finset.card_lt_card
  refine (Finset.ssubset_iff_of_subset hle).2 ⟨n, ?_, ?_⟩
  · simp [hu, hn]
  · simp [hn']

end Outside

variable {α : Type} {next : α → List α}

theorem append_eq_append_cons {l l' a b : List α} {m : α} (h : l ++ l' = a ++ m :: b) :
    (∃ c, l = a ++ m :: c) ∨ ∃ c, a = l ++ c ∧ l' = c ++ m :: b := by
  obtain ⟨c, ha, hc⟩ | ⟨c, hl, hc⟩ := List.append_eq_append_iff.1 h
  · exact Or.inr ⟨c, ha, hc⟩
  · cases c with
    | nil => exact Or.inr ⟨[], by simpa using hl.symm, hc.symm⟩
    | cons x c =>
      obtain ⟨rfl, -⟩ := List.cons.inj hc
      exact Or.inl ⟨c, hl⟩

theorem append_cons_eq_append_cons {l l' a b : List α} {m n : α}
    (h : l ++ n :: l' = a ++ m :: b) :
    (∃ c, l = a ++ m :: c) ∨ (m = n ∧ a = l) ∨ ∃ c, a = l ++ n :: c ∧ l' = c ++ m :: b := by
  obtain hl | ⟨c, ha, hc⟩ := append_eq_append_cons h
  · exact Or.inl hl
  · cases c with
    | nil =>
      obtain ⟨rfl, -⟩ := List.cons.inj hc
      exact Or.inr (Or.inl ⟨rfl, by simpa using ha⟩)
    | cons x c =>
      rw [List.cons_append, List.cons.injEq] at hc
      obtain ⟨rfl, hc⟩ := hc
      exact Or.inr (Or.inr ⟨c, ha, hc⟩)

def Leads (next : α → List α) (m n : α) : Prop := n ∈ next m

/-- The order in which a depth-first search enters vertices, and the one in which it
leaves them. The search sets out to the given vertices, one after the other, and
passes over those it has seen. -/
inductive DepthFirst (next : α → List α) : List α → List α → List α → List α → Prop
  | nil {seen : List α} : DepthFirst next seen [] [] []
  | skip {seen names pre post : List α} {n : α} (hn : n ∈ seen)
      (rest : DepthFirst next seen names pre post) : DepthFirst next seen (n :: names) pre post
  | visit {seen names pre post pre' post' : List α} {n : α} (hn : n ∉ seen)
      (inner : DepthFirst next (n :: seen) (next n) pre post)
      (rest : DepthFirst next (pre.reverse ++ n :: seen) names pre' post') :
      DepthFirst next seen (n :: names) (n :: (pre ++ pre')) (post ++ n :: post')

namespace DepthFirst

variable {seen names pre post : List α}

theorem post_perm (h : DepthFirst next seen names pre post) : post.Perm pre := by
  induction h with
  | nil => exact List.Perm.refl []
  | skip hn rest ih => exact ih
  | visit hn inner rest ihi ihr =>
    exact List.perm_middle.trans (List.Perm.cons _ (ihi.append ihr))

theorem not_mem_seen (h : DepthFirst next seen names pre post) : ∀ n ∈ pre, n ∉ seen := by
  induction h with
  | nil => simp
  | skip hn rest ih => exact ih
  | visit hn inner rest ihi ihr =>
    intro m hm
    obtain rfl | hm := List.mem_cons.1 hm
    · exact hn
    · obtain hm | hm := List.mem_append.1 hm
      · exact fun hs => ihi m hm (List.mem_cons_of_mem _ hs)
      · exact fun hs => ihr m hm (by simp [hs])

theorem pre_nodup (h : DepthFirst next seen names pre post) : pre.Nodup := by
  induction h with
  | nil => exact List.nodup_nil
  | skip hn rest ih => exact ih
  | @visit seen names pre post pre' post' n hn inner rest ihi ihr =>
    have hi : n ∉ pre := fun hm => inner.not_mem_seen n hm (by simp)
    have hr : n ∉ pre' := fun hm => rest.not_mem_seen n hm (by simp)
    have hd : List.Disjoint pre pre' := fun m hm hm' => rest.not_mem_seen m hm' (by simp [hm])
    exact List.nodup_cons.2 ⟨by simp [hi, hr], ihi.append ihr hd⟩

theorem mem_of_names (h : DepthFirst next seen names pre post) :
    ∀ n ∈ names, n ∈ pre ∨ n ∈ seen := by
  induction h with
  | nil => simp
  | skip hn rest ih =>
    intro m hm
    obtain rfl | hm := List.mem_cons.1 hm
    · exact Or.inr hn
    · exact ih m hm
  | visit hn inner rest ihi ihr =>
    intro m hm
    obtain rfl | hm := List.mem_cons.1 hm
    · simp
    · obtain hp | hs := ihr m hm
      · simp [hp]
      · simp only [List.mem_append, List.mem_reverse, List.mem_cons] at hs ⊢
        tauto

theorem mem_of_leads (h : DepthFirst next seen names pre post) :
    ∀ m ∈ pre, ∀ n ∈ next m, n ∈ pre ∨ n ∈ seen := by
  induction h with
  | nil => simp
  | skip hn rest ih => exact ih
  | @visit seen names pre post pre' post' n hn inner rest ihi ihr =>
    intro m hm k hk
    have hinner : k ∈ pre ∨ k ∈ n :: seen → k ∈ n :: (pre ++ pre') ∨ k ∈ seen := by
      simp only [List.mem_cons, List.mem_append]
      tauto
    obtain rfl | hm := List.mem_cons.1 hm
    · exact hinner (inner.mem_of_names k hk)
    · obtain hm | hm := List.mem_append.1 hm
      · exact hinner (ihi m hm k hk)
      · have := ihr m hm k hk
        simp only [List.mem_append, List.mem_reverse, List.mem_cons] at this ⊢
        tauto

theorem reached (h : DepthFirst next seen names pre post) :
    ∀ n ∈ pre, ∃ m ∈ names, ReflTransGen (Leads next) m n := by
  induction h with
  | nil => simp
  | skip hn rest ih =>
    intro n hp
    obtain ⟨m, hm, hr⟩ := ih n hp
    exact ⟨m, List.mem_cons_of_mem _ hm, hr⟩
  | @visit seen names pre post pre' post' n hn inner rest ihi ihr =>
    intro k hk
    obtain rfl | hk := List.mem_cons.1 hk
    · exact ⟨k, by simp, ReflTransGen.refl⟩
    · obtain hk | hk := List.mem_append.1 hk
      · obtain ⟨m, hm, hr⟩ := ihi k hk
        exact ⟨n, by simp, ReflTransGen.head hm hr⟩
      · obtain ⟨m, hm, hr⟩ := ihr k hk
        exact ⟨m, List.mem_cons_of_mem _ hm, hr⟩

/-- A search that has seen nothing before enters exactly what can be reached. -/
theorem mem_pre_iff (h : DepthFirst next [] names pre post) (n : α) :
    n ∈ pre ↔ ∃ m ∈ names, ReflTransGen (Leads next) m n := by
  constructor
  · exact h.reached n
  · rintro ⟨m, hm, hr⟩
    induction hr with
    | refl => simpa using h.mem_of_names m hm
    | tail _ hk ih => simpa using h.mem_of_leads _ ih _ hk

theorem functional {pre' post' : List α} (h : DepthFirst next seen names pre post)
    (h' : DepthFirst next seen names pre' post') : pre = pre' ∧ post = post' := by
  induction h generalizing pre' post' with
  | nil => cases h'; exact ⟨rfl, rfl⟩
  | skip hn rest ih =>
    cases h' with
    | skip _ rest' => exact ih rest'
    | visit hn' => exact absurd hn hn'
  | visit hn inner rest ihi ihr =>
    cases h' with
    | skip hn' => exact absurd hn' hn
    | visit _ inner' rest' =>
      obtain ⟨rfl, rfl⟩ := ihi inner'
      obtain ⟨rfl, rfl⟩ := ihr rest'
      exact ⟨rfl, rfl⟩

theorem exists_of_finite [DecidableEq α] {vertices : List α}
    (closed : ∀ n ∈ vertices, next n ⊆ vertices) :
    ∀ (k : Nat) (seen names : List α), countOutside vertices seen ≤ k → names ⊆ vertices →
      ∃ pre post, DepthFirst next seen names pre post := by
  -- Each vertex that is entered leaves fewer unseen.
  intro k
  induction k using Nat.strong_induction_on with
  | _ k ih =>
    intro seen names hk hu
    induction names generalizing seen with
    | nil => exact ⟨[], [], .nil⟩
    | cons n names ihn =>
      obtain ⟨hn, hu⟩ := List.cons_subset.1 hu
      by_cases hs : n ∈ seen
      · obtain ⟨pre, post, rest⟩ := ihn seen hk hu
        exact ⟨pre, post, .skip hs rest⟩
      · have hlt : countOutside vertices (n :: seen) < k :=
          (countOutside_lt (List.subset_cons_self n seen) hn hs (by simp)).trans_le hk
        obtain ⟨pre, post, inner⟩ := ih _ hlt (n :: seen) (next n) le_rfl (closed n hn)
        have hle : countOutside vertices (pre.reverse ++ n :: seen) ≤ k :=
          (countOutside_le vertices (fun m hm => by simp [hm])).trans hk
        obtain ⟨pre', post', rest⟩ := ihn _ hle hu
        exact ⟨_, _, .visit hs inner rest⟩

/-- A vertex that lies on no circle is left after everything that it leads to. -/
theorem left_before (h : DepthFirst next seen names pre post) :
    ∀ a m b, post = a ++ m :: b → ¬ TransGen (Leads next) m m → ∀ n ∈ next m, n ∈ a ∨ n ∈ seen := by
  induction h with
  | nil => simp
  | skip hn rest ih => exact ih
  | @visit seen names pre post pre' post' k hk inner rest ihi ihr =>
    intro a m b he hm n hn
    obtain ⟨c, rfl⟩ | ⟨rfl, rfl⟩ | ⟨c, rfl, rfl⟩ := append_cons_eq_append_cons he
    · -- Only a vertex from which the search came may be entered and not left.
      have hne : n ≠ k := by
        rintro rfl
        have hp : m ∈ pre := inner.post_perm.subset (by simp)
        obtain ⟨l, hl, hr⟩ := inner.reached m hp
        exact hm (TransGen.head' hn (ReflTransGen.head hl hr))
      have := ihi a m c rfl hm n hn
      simpa [hne] using this
    · have hne : n ≠ m := by
        rintro rfl
        exact hm (TransGen.single hn)
      have := inner.mem_of_names n hn
      simpa [hne, inner.post_perm.mem_iff] using this
    · have := ihr c m b rfl hm n hn
      simp only [List.mem_append, List.mem_reverse, List.mem_cons, inner.post_perm.mem_iff]
        at this ⊢
      tauto

end DepthFirst

end VnScript
