import Mathlib.Data.List.Basic

/-!
# Segments that are resolved against those before them

A list of segments in which some are skipped and some step up: what stays is a stack, and stepping
up from the empty stack does nothing.

* `step`            one segment;
* `resolve`         a list of them;
* `resolve_filter`  segments that are skipped may be left out;
* `resolve_plain`   a list of plain segments is its own resolution;
* `foldl_resolve`   a fold that keeps a prefix and steps as `step` does, resolves;
* `nil_mem_splitOn` where a list that is split has an empty piece.
-/

set_option linter.unusedSectionVars false

namespace Tsr.Segments

variable {α : Type*} (skip up : α → Prop) [DecidablePred skip] [DecidablePred up]

def step (kept : List α) (s : α) : List α :=
  if skip s then kept else if up s then kept.dropLast else kept ++ [s]

def resolve (l : List α) : List α := l.foldl (step skip up) []

variable {skip up}

theorem step_skip {kept : List α} {s : α} (h : skip s) : step skip up kept s = kept := if_pos h

theorem step_up {kept : List α} {s : α} (hskip : ¬skip s) (hup : up s) :
    step skip up kept s = kept.dropLast := (if_neg hskip).trans (if_pos hup)

theorem step_plain {kept : List α} {s : α} (hskip : ¬skip s) (hup : ¬up s) :
    step skip up kept s = kept ++ [s] := (if_neg hskip).trans (if_neg hup)

/-- what is kept was kept before, or is the segment itself and is plain -/
theorem mem_step {kept : List α} {s t : α} (h : t ∈ step skip up kept s) :
    t ∈ kept ∨ t = s ∧ ¬skip s ∧ ¬up s := by
  by_cases hskip : skip s
  · rw [step_skip hskip] at h
    exact Or.inl h
  · by_cases hup : up s
    · rw [step_up hskip hup] at h
      exact Or.inl ((List.dropLast_sublist kept).subset h)
    · rw [step_plain hskip hup, List.mem_append, List.mem_singleton] at h
      exact h.imp id fun heq => ⟨heq, hskip, hup⟩

theorem mem_foldl_step {l kept : List α} {t : α} (h : t ∈ l.foldl (step skip up) kept) :
    t ∈ kept ∨ t ∈ l ∧ ¬skip t ∧ ¬up t := by
  induction l generalizing kept with
  | nil => exact Or.inl h
  | cons s l ih =>
    rw [List.foldl_cons] at h
    rcases ih h with hkept | ⟨hmem, hplain⟩
    · rcases mem_step hkept with hkept | ⟨rfl, hplain⟩
      · exact Or.inl hkept
      · exact Or.inr ⟨List.mem_cons_self, hplain⟩
    · exact Or.inr ⟨List.mem_cons_of_mem s hmem, hplain⟩

/-- what stays was there, and is plain -/
theorem mem_resolve {l : List α} {t : α} (h : t ∈ resolve skip up l) : t ∈ l ∧ ¬skip t ∧ ¬up t :=
  (mem_foldl_step h).resolve_left List.not_mem_nil

theorem foldl_step_filter (l kept : List α) :
    (l.filter fun s => ¬skip s).foldl (step skip up) kept = l.foldl (step skip up) kept := by
  induction l generalizing kept with
  | nil => rfl
  | cons s l ih =>
    by_cases hskip : skip s
    · rw [List.filter_cons_of_neg (by simpa using hskip), List.foldl_cons, step_skip hskip, ih]
    · rw [List.filter_cons_of_pos (by simpa using hskip), List.foldl_cons, List.foldl_cons, ih]

/-- segments that are skipped may be left out -/
theorem resolve_filter {l l' : List α}
    (h : (l.filter fun s => ¬skip s) = l'.filter fun s => ¬skip s) :
    resolve skip up l = resolve skip up l' := by
  rw [resolve, ← foldl_step_filter, h, foldl_step_filter, resolve]

theorem foldl_step_plain {l : List α} (h : ∀ s ∈ l, ¬skip s ∧ ¬up s) (kept : List α) :
    l.foldl (step skip up) kept = kept ++ l := by
  induction l generalizing kept with
  | nil => exact (List.append_nil kept).symm
  | cons s l ih =>
    obtain ⟨hs, hl⟩ := List.forall_mem_cons.1 h
    rw [List.foldl_cons, step_plain hs.1 hs.2, ih hl, List.append_assoc, List.singleton_append]

theorem resolve_plain {l : List α} (h : ∀ s ∈ l, ¬skip s ∧ ¬up s) : resolve skip up l = l :=
  foldl_step_plain h []

theorem foldl_step_prefix {f : List α → α → List α} {before : List α}
    (hf : ∀ kept s, (∀ t ∈ kept, ¬up t) → f (before ++ kept) s = before ++ step skip up kept s)
    (l : List α) {kept : List α} (hkept : ∀ t ∈ kept, ¬up t) :
    l.foldl f (before ++ kept) = before ++ l.foldl (step skip up) kept := by
  induction l generalizing kept with
  | nil => rfl
  | cons s l ih =>
    rw [List.foldl_cons, List.foldl_cons, hf kept s hkept]
    apply ih
    intro t ht
    rcases mem_step ht with ht | ⟨rfl, -, hup⟩
    · exact hkept t ht
    · exact hup

/-- a fold that leaves a prefix alone and treats the rest as `step` does -/
theorem foldl_resolve {f : List α → α → List α} {before : List α}
    (hf : ∀ kept s, (∀ t ∈ kept, ¬up t) → f (before ++ kept) s = before ++ step skip up kept s)
    (l : List α) : l.foldl f before = before ++ resolve skip up l := by
  have hnil : ∀ t ∈ ([] : List α), ¬up t := fun t ht => absurd ht List.not_mem_nil
  have h := foldl_step_prefix hf l hnil
  rw [List.append_nil] at h
  exact h

/-! ## lists that are split at a separator -/

section
variable {β : Type*} [DecidableEq β] {sep : β}

theorem intercalate_append {before after : List (List β)} (hbefore : before ≠ []) (hafter : after ≠ []) :
    [sep].intercalate (before ++ after) =
      [sep].intercalate before ++ sep :: [sep].intercalate after := by
  induction before with
  | nil => exact absurd rfl hbefore
  | cons s before ih =>
    by_cases hnil : before = []
    · subst hnil
      rw [List.singleton_append, List.intercalate_cons_of_ne_nil hafter, List.intercalate_singleton,
        List.append_assoc]
      rfl
    · have happ : before ++ after ≠ [] := fun h => hnil (List.append_eq_nil_iff.1 h).1
      rw [List.cons_append, List.intercalate_cons_of_ne_nil happ, ih hnil,
        List.intercalate_cons_of_ne_nil hnil]
      simp only [List.append_assoc]

theorem mem_intercalate {b : β} {l : List (List β)} :
    b ∈ [sep].intercalate l → b = sep ∨ ∃ piece ∈ l, b ∈ piece := by
  induction l with
  | nil => exact fun h => absurd h List.not_mem_nil
  | cons s l ih =>
    intro h
    by_cases hnil : l = []
    · rw [hnil, List.intercalate_singleton] at h
      exact Or.inr ⟨s, List.mem_cons_self, h⟩
    · rw [List.intercalate_cons_of_ne_nil hnil, List.mem_append, List.mem_append,
        List.mem_singleton] at h
      rcases h with (h | h) | h
      · exact Or.inr ⟨s, List.mem_cons_self, h⟩
      · exact Or.inl h
      · exact (ih h).imp id fun ⟨piece, hpiece, hb⟩ => ⟨piece, List.mem_cons_of_mem s hpiece, hb⟩

theorem mem_intercalate_of_mem {b : β} {l : List (List β)} {piece : List β} (hpiece : piece ∈ l)
    (hb : b ∈ piece) : b ∈ [sep].intercalate l := by
  induction l with
  | nil => exact absurd hpiece List.not_mem_nil
  | cons s l ih =>
    by_cases hnil : l = []
    · rw [hnil, List.mem_singleton] at hpiece
      rw [hnil, List.intercalate_singleton, ← hpiece]
      exact hb
    · rw [List.intercalate_cons_of_ne_nil hnil, List.mem_append, List.mem_append]
      rcases List.mem_cons.1 hpiece with rfl | hpiece
      · exact Or.inl (Or.inl hb)
      · exact Or.inr (ih hpiece)

/-- what is in a piece is in the list -/
theorem mem_of_mem_splitOn {b : β} {l piece : List β} (hpiece : piece ∈ l.splitOn sep) (hb : b ∈ piece) :
    b ∈ l := by
  have h : b ∈ [sep].intercalate (l.splitOn sep) := mem_intercalate_of_mem hpiece hb
  rw [List.intercalate_splitOn] at h
  exact h

theorem not_mem_of_mem_splitOn {l piece : List β} (h : piece ∈ l.splitOn sep) : sep ∉ piece := by
  induction l generalizing piece with
  | nil =>
    rw [List.splitOn_nil, List.mem_singleton] at h
    rw [h]
    exact List.not_mem_nil
  | cons b l ih =>
    rw [List.splitOn_cons_eq_if_modifyHead] at h
    split at h
    · rcases List.mem_cons.1 h with rfl | h
      · exact List.not_mem_nil
      · exact ih h
    next hb =>
      obtain ⟨first, rest, hsplit⟩ := List.exists_cons_of_ne_nil (List.splitOn_ne_nil sep l)
      rw [hsplit] at h ih
      rcases List.mem_cons.1 h with rfl | h
      · rw [List.mem_cons, not_or]
        exact ⟨fun heq => hb (beq_iff_eq.2 heq.symm), ih List.mem_cons_self⟩
      · exact ih (List.mem_cons_of_mem _ h)

/-- an empty piece is the whole, at an end, or between two separators -/
theorem nil_mem_splitOn {l : List β} (h : [] ∈ l.splitOn sep) :
    l = [] ∨ l.head? = some sep ∨ l.getLast? = some sep ∨ [sep, sep] <:+: l := by
  obtain ⟨before, after, hsplit⟩ := List.append_of_mem h
  have hl : l = [sep].intercalate (before ++ [] :: after) := by
    rw [← hsplit, List.intercalate_splitOn]
  by_cases hafter : after = []
  · by_cases hbefore : before = []
    · left
      rw [hl, hbefore, hafter]
      rfl
    · right; right; left
      rw [hl, hafter, intercalate_append hbefore (List.cons_ne_nil _ _)]
      exact List.getLast?_concat
  · have htail : [sep].intercalate ([] :: after) = sep :: [sep].intercalate after := by
      rw [List.intercalate_cons_of_ne_nil hafter]
      rfl
    by_cases hbefore : before = []
    · right; left
      rw [hl, hbefore, List.nil_append, htail]
      rfl
    · right; right; right
      rw [hl, intercalate_append hbefore (List.cons_ne_nil _ _), htail]
      exact ⟨[sep].intercalate before, [sep].intercalate after, by simp⟩

end

end Tsr.Segments
