import Mathlib.Data.List.Infix

/-!
# Separated texts

The order of two texts against the order of the segments that a separator leaves of them.

* `lexical`              the order of lists, a prefix first;
* `Spells`               the text of some segments, with or without a separator at the end;
* `Tangled`              two texts whose order a separator decides alone, or against its neighbour;
* `segments_iff`         the segments are in the order of the texts unless these are tangled;
* `lengthened_iff`, `leading_iff`   what lengthening or shortening two texts does to their order.
-/

set_option linter.unusedSectionVars false

namespace Tsr.Lib.Separated

variable {α : Type*} [Ord α] [Std.TransOrd α] [Std.LawfulEqOrd α] [DecidableEq α] {s : α}
variable {u v : List α} {text : List α} {segments : List (List α)}

/-! ## the order of lists -/

abbrev lexical : List α → List α → Ordering := List.compareLex compare

theorem lexical_self (u : List α) : lexical u u = .eq := Std.ReflCmp.compare_self

theorem lexical_eq (h : lexical u v = .eq) : u = v := Std.LawfulEqCmp.eq_of_compare h

theorem lexical_nil {v : List α} (h : v ≠ []) : lexical [] v = .lt := by
  obtain ⟨b, v, rfl⟩ := List.exists_cons_of_ne_nil h
  exact List.compareLex_nil_cons

theorem lexical_cons (a : α) (u v : List α) : lexical (a :: u) (a :: v) = lexical u v := by
  unfold lexical
  rw [List.compareLex_cons_cons, Std.ReflOrd.compare_self]
  rfl

theorem lexical_differ {a b : α} (h : a ≠ b) (u v : List α) : lexical (a :: u) (b :: v) = compare a b := by
  unfold lexical
  rw [List.compareLex_cons_cons]
  cases hab : compare a b with
  | lt => rfl
  | eq => exact absurd (Std.LawfulEqOrd.eq_of_compare hab) h
  | gt => rfl

theorem lexical_swap (u v : List α) : lexical u v = (lexical v u).swap :=
  Std.OrientedCmp.eq_swap

theorem lexical_append (p u v : List α) : lexical (p ++ u) (p ++ v) = lexical u v := by
  induction p with
  | nil => rfl
  | cons a p ih => exact (lexical_cons a _ _).trans ih

theorem lexical_longer (p : List α) {v : List α} (h : v ≠ []) : lexical p (p ++ v) = .lt := by
  have hend := lexical_append p [] v
  rw [List.append_nil] at hend
  exact hend.trans (lexical_nil h)

/-- two lists part where the one ends, or at a difference -/
inductive Parted : List α → List α → Prop
  | same (u : List α) : Parted u u
  | left (p : List α) {v : List α} (h : v ≠ []) : Parted p (p ++ v)
  | right (p : List α) {u : List α} (h : u ≠ []) : Parted (p ++ u) p
  | apart (p : List α) {a b : α} (h : a ≠ b) (u v : List α) : Parted (p ++ a :: u) (p ++ b :: v)

theorem Parted.cons (a : α) (h : Parted u v) : Parted (a :: u) (a :: v) := by
  cases h with
  | same u => exact .same _
  | left _ h => exact .left (a :: u) h
  | right _ h => exact .right (a :: v) h
  | apart p h u v => exact .apart (a :: p) h u v

theorem parted (u v : List α) : Parted u v := by
  induction u generalizing v with
  | nil =>
    cases v with
    | nil => exact .same []
    | cons b v => exact .left [] (List.cons_ne_nil b v)
  | cons a u ih =>
    cases v with
    | nil => exact .right [] (List.cons_ne_nil a u)
    | cons b v =>
      by_cases h : a = b
      · subst h
        exact (ih v).cons a
      · exact .apart [] h u v

/-! ## separators -/

/-- the first difference is the separator in `u`, and less than it in `v` -/
def crosses (separator : α) : List α → List α → Bool
  | a :: u, b :: v => if a = b then crosses separator u v else a = separator && compare b separator == .lt
  | _, _ => false

/-- a separator decides the order of the texts against what is less than it, or stands at the end of only one -/
def Tangled (separator : α) (u v : List α) : Prop :=
  crosses separator u v = true ∨ crosses separator v u = true ∨ u = v ++ [separator] ∨ v = u ++ [separator]

instance (separator : α) (u v : List α) : Decidable (Tangled separator u v) :=
  inferInstanceAs (Decidable (_ ∨ _ ∨ _ ∨ _))

theorem Tangled.symm (h : Tangled s u v) : Tangled s v u := by
  rcases h with h | h | h | h
  · exact Or.inr (Or.inl h)
  · exact Or.inl h
  · exact Or.inr (Or.inr (Or.inr h))
  · exact Or.inr (Or.inr (Or.inl h))

theorem tangled_cons (a : α) (u v : List α) : Tangled s (a :: u) (a :: v) ↔ Tangled s u v := by
  unfold Tangled
  rw [crosses, if_pos rfl, crosses, if_pos rfl, List.cons_append, List.cons_append, List.cons_inj_right,
    List.cons_inj_right]

theorem tangled_append (p u v : List α) : Tangled s (p ++ u) (p ++ v) ↔ Tangled s u v := by
  induction p with
  | nil => exact Iff.rfl
  | cons a p ih => exact (tangled_cons a _ _).trans ih

/-- texts of which one is empty -/
theorem tangled_nil {v : List α} : Tangled s [] v ↔ v = [s] := by
  constructor
  · intro h
    rcases h with h | h | h | h
    · cases v <;> cases h
    · cases v <;> cases h
    · exact absurd h.symm (List.append_ne_nil_of_right_ne_nil v (List.cons_ne_nil s []))
    · exact h
  · intro h
    exact Or.inr (Or.inr (Or.inr h))

/-- texts whose first elements differ -/
theorem tangled_differ {a b : α} (h : a ≠ b) (u v : List α) :
    Tangled s (a :: u) (b :: v) ↔ (a = s ∧ compare b s = .lt) ∨ (b = s ∧ compare a s = .lt) := by
  have hleft : crosses s (a :: u) (b :: v) = true ↔ a = s ∧ compare b s = .lt := by
    rw [crosses, if_neg h, Bool.and_eq_true, decide_eq_true_eq, beq_iff_eq]
  have hright : crosses s (b :: v) (a :: u) = true ↔ b = s ∧ compare a s = .lt := by
    rw [crosses, if_neg (Ne.symm h), Bool.and_eq_true, decide_eq_true_eq, beq_iff_eq]
  unfold Tangled
  rw [hleft, hright]
  constructor
  · intro hall
    rcases hall with hall | hall | hall | hall
    · exact Or.inl hall
    · exact Or.inr hall
    · exact absurd (List.cons.inj hall).1 h
    · exact absurd (List.cons.inj hall).1.symm h
  · intro hboth
    rcases hboth with hboth | hboth
    · exact Or.inl hboth
    · exact Or.inr (Or.inl hboth)

/-- the text of some segments -/
inductive Spells (separator : α) : List (List α) → List α → Prop
  | nil : Spells separator [] []
  | last {segment : List α} (hne : segment ≠ []) (h : separator ∉ segment) : Spells separator [segment] segment
  | cons {segment : List α} (hne : segment ≠ []) (h : separator ∉ segment) {more : List (List α)} {text : List α}
      (htext : Spells separator more text) : Spells separator (segment :: more) (segment ++ separator :: text)

/-- what stands behind a segment -/
def Tail (separator : α) (more : List (List α)) (tail : List α) : Prop :=
  (more = [] ∧ tail = []) ∨ ∃ text, tail = separator :: text ∧ Spells separator more text

theorem Spells.head_tail {segment : List α} {more : List (List α)} {text : List α}
    (h : Spells s (segment :: more) text) :
    segment ≠ [] ∧ s ∉ segment ∧ ∃ tail, text = segment ++ tail ∧ Tail s more tail := by
  cases h with
  | last hne h => exact ⟨hne, h, [], (List.append_nil segment).symm, Or.inl ⟨rfl, rfl⟩⟩
  | cons hne h htext => exact ⟨hne, h, _, rfl, Or.inr ⟨_, rfl, htext⟩⟩

/-- a text of segments does not begin with a separator -/
theorem Spells.head (h : Spells s segments text) (rest : List α) :
    text ≠ s :: rest := by
  have hsegment : ∀ {segment tail : List α}, segment ≠ [] → s ∉ segment → segment ++ tail ≠ s :: rest := by
    intro segment tail hne hnone heq
    obtain ⟨a, segment, rfl⟩ := List.exists_cons_of_ne_nil hne
    exact hnone ((List.cons.inj heq).1 ▸ List.mem_cons_self)
  cases h with
  | nil => exact (List.cons_ne_nil _ _).symm
  | last hne h =>
    intro heq
    rw [← List.append_nil text] at heq
    exact hsegment hne h heq
  | cons hne h htext => exact hsegment hne h

theorem Spells.nil_iff (h : Spells s segments text) :
    segments = [] ↔ text = [] := by
  cases h with
  | nil => exact ⟨fun _ => rfl, fun _ => rfl⟩
  | last hne h => exact ⟨fun hnil => absurd hnil (List.cons_ne_nil _ _), fun hnil => absurd hnil hne⟩
  | cons hne h htext =>
    exact ⟨fun hnil => absurd hnil (List.cons_ne_nil _ _),
      fun hnil => absurd hnil (List.append_ne_nil_of_left_ne_nil hne _)⟩

theorem Spells.mem (h : Spells s segments text) {b : α} (hb : b ∈ text) :
    b = s ∨ ∃ segment ∈ segments, b ∈ segment := by
  induction h with
  | nil => cases hb
  | last hne h => exact Or.inr ⟨_, List.mem_cons_self, hb⟩
  | cons hne h htext ih =>
    rcases List.mem_append.1 hb with hb | hb
    · exact Or.inr ⟨_, List.mem_cons_self, hb⟩
    · rcases List.mem_cons.1 hb with rfl | hb
      · exact Or.inl rfl
      · rcases ih hb with rfl | ⟨segment, hmem, hb⟩
        · exact Or.inl rfl
        · exact Or.inr ⟨segment, List.mem_cons_of_mem _ hmem, hb⟩

/-- no two separators meet in a text of segments -/
theorem Spells.apart (h : Spells s segments text) :
    ¬[s, s] <:+: text := by
  induction h with
  | nil => exact fun hin => absurd (List.infix_nil.1 hin) (List.cons_ne_nil _ _)
  | last hne h => exact fun hin => h (hin.subset List.mem_cons_self)
  | @cons segment hne h more text htext ih =>
    rintro ⟨before, after, heq⟩
    rw [List.append_assoc] at heq
    -- the two separators begin in the segment, at its end, or behind it
    rcases List.append_eq_append_iff.1 heq with ⟨tail, hsegment, htail⟩ | ⟨tail, hbefore, htail⟩
    · rcases tail with _ | ⟨b, tail⟩
      · exact htext.head after (List.cons.inj htail).2.symm
      · have hb : b = s := (List.cons.inj htail).1.symm
        exact h (hsegment ▸ hb ▸ List.mem_append_right _ List.mem_cons_self)
    · rcases tail with _ | ⟨b, tail⟩
      · exact htext.head after (List.cons.inj htail).2
      · exact ih ⟨tail, after, by rw [List.append_assoc, (List.cons.inj htail).2]; rfl⟩

/-- the segments are what the separator leaves of a text, but for the empty ones -/
theorem Spells.splitOn (h : Spells s segments text) :
    (text.splitOn s).filter (· ≠ []) = segments := by
  induction h with
  | nil => rfl
  | @last segment hne h =>
    rw [List.splitOn_eq_singleton h]
    exact List.filter_cons_of_pos (decide_eq_true hne)
  | @cons segment hne h more text htext ih =>
    rw [List.splitOn_append_cons_self_of_not_mem h, List.filter_cons, if_pos (decide_eq_true hne), ih]

/-- a text is its segments joined, and the separator that it may end with -/
theorem Spells.joined (h : Spells s segments text) :
    text = [s].intercalate segments ++ if text.getLast? = some s then [s] else [] := by
  induction h with
  | nil => rfl
  | @last segment hne h =>
    rw [List.intercalate_singleton, if_neg fun hlast => h (List.mem_of_getLast? hlast), List.append_nil]
  | @cons segment hne h more text htext ih =>
    rw [List.getLast?_append_of_ne_nil _ (List.cons_ne_nil _ _)]
    by_cases hnil : text = []
    · subst hnil
      rw [htext.nil_iff.2 rfl, List.intercalate_singleton]
      exact congrArg (segment ++ ·) (if_pos rfl).symm
    · have hmore : more ≠ [] := htext.nil_iff.not.2 hnil
      rw [List.getLast?_cons_of_ne_nil hnil, List.intercalate_cons_of_ne_nil hmore, List.append_assoc,
        List.append_assoc, ← ih]
      rfl

/-- segments joined -/
theorem spells_intercalate (h : ∀ segment ∈ segments, segment ≠ [] ∧ s ∉ segment) :
    Spells s segments ([s].intercalate segments) := by
  induction segments with
  | nil => exact .nil
  | cons segment more ih =>
    obtain ⟨⟨hne, hnone⟩, hmore⟩ := List.forall_mem_cons.1 h
    by_cases hnil : more = []
    · rw [hnil, List.intercalate_singleton]
      exact .last hne hnone
    · rw [List.intercalate_cons_of_ne_nil hnil, List.append_assoc]
      exact .cons hne hnone (ih hmore)

/-- a separator at the end -/
theorem Spells.close (h : Spells s segments text) (hne : text ≠ [])
    (hlast : text.getLast? ≠ some s) : Spells s segments (text ++ [s]) := by
  induction h with
  | nil => exact absurd rfl hne
  | last hne h => exact .cons hne h .nil
  | @cons segment hseg h more text htext ih =>
    have hopen : text ≠ [] := by
      rintro rfl
      exact hlast List.getLast?_concat
    rw [List.getLast?_append_of_ne_nil _ (List.cons_ne_nil _ _), List.getLast?_cons_of_ne_nil hopen] at hlast
    rw [List.append_assoc]
    exact .cons hseg h (ih hopen hlast)

/-- segments whose elements are others -/
theorem Spells.map (h : Spells s segments text) (key : List α → List α)
    (hnil : ∀ u, key u = [] ↔ u = []) (hnone : ∀ u, s ∈ key u ↔ s ∈ u)
    (hkey : ∀ u v, key (u ++ s :: v) = key u ++ s :: key v) : Spells s (segments.map key) (key text) := by
  induction h with
  | nil =>
    rw [(hnil []).2 rfl]
    exact .nil
  | last hne h => exact .last ((hnil _).not.2 hne) ((hnone _).not.2 h)
  | cons hne h htext ih =>
    rw [hkey]
    exact .cons ((hnil _).not.2 hne) ((hnone _).not.2 h) ih

/-- two segments that differ, and what stands behind them -/
theorem differ_iff {x y : List α} (hne : x ≠ y) (hx : s ∉ x) (hy : s ∉ y) {more more' : List (List α)} (hu : Tail s more u) (hv : Tail s more' v) :
    lexical x y = lexical (x ++ u) (y ++ v) ↔ ¬Tangled s (x ++ u) (y ++ v) := by
  -- a segment that ends where the other goes on with `b`
  have hends : ∀ {more : List (List α)} {u : List α} {b : α} (w : List α), Tail s more u → b ≠ s →
      (lexical u (b :: w) = .lt ↔ ¬Tangled s u (b :: w)) := by
    intro more u b w hu hb
    rcases hu with ⟨-, rfl⟩ | ⟨text, rfl, -⟩
    · rw [lexical_nil (List.cons_ne_nil b w), tangled_nil]
      exact ⟨fun _ heq => hb (List.cons.inj heq).1, fun _ => rfl⟩
    · rw [lexical_differ (Ne.symm hb), tangled_differ (Ne.symm hb), Std.OrientedOrd.eq_swap (a := s) (b := b)]
      have hnone : compare b s ≠ .eq := fun heq => hb (Std.LawfulEqOrd.eq_of_compare heq)
      cases hbs : compare b s with
      | lt => simp
      | eq => exact absurd hbs hnone
      | gt => simp [hb]
  have hparted := parted x y
  cases hparted with
  | same => exact absurd rfl hne
  | left p h =>
    obtain ⟨b, w, rfl⟩ := List.exists_cons_of_ne_nil h
    have hb : b ≠ s := fun heq => hy (heq ▸ List.mem_append_right _ List.mem_cons_self)
    rw [lexical_longer x h, List.append_assoc, lexical_append, tangled_append, List.cons_append, eq_comm]
    exact hends _ hu hb
  | right p h =>
    obtain ⟨b, w, rfl⟩ := List.exists_cons_of_ne_nil h
    have hb : b ≠ s := fun heq => hx (heq ▸ List.mem_append_right _ List.mem_cons_self)
    rw [lexical_swap, lexical_longer y h, List.append_assoc, lexical_append, tangled_append, List.cons_append,
      lexical_swap (b :: (w ++ u))]
    have h := hends (w ++ u) hv hb
    rw [Ordering.swap_inj, eq_comm, h]
    exact not_congr ⟨Tangled.symm, Tangled.symm⟩
  | @apart p a b h u' v' =>
    have ha : a ≠ s := fun heq => hx (heq ▸ List.mem_append_right _ List.mem_cons_self)
    have hb : b ≠ s := fun heq => hy (heq ▸ List.mem_append_right _ List.mem_cons_self)
    rw [lexical_append, lexical_differ h, List.append_assoc, List.append_assoc, lexical_append, tangled_append,
      List.cons_append, List.cons_append, lexical_differ h, tangled_differ h]
    refine ⟨fun _ hor => ?_, fun _ => rfl⟩
    rcases hor with hor | hor
    · exact ha hor.1
    · exact hb hor.1

/-- **The segments are in the order of their texts**, unless these are tangled. -/
theorem segments_iff {left right : List (List α)} (hleft : Spells s left u)
    (hright : Spells s right v) : List.compareLex lexical left right = lexical u v ↔ ¬Tangled s u v := by
  induction left generalizing right u v with
  | nil =>
    cases hleft
    rw [tangled_nil]
    cases hright with
    | nil => exact ⟨fun _ h => absurd h (List.cons_ne_nil s []).symm, fun _ => rfl⟩
    | last hne h =>
      rw [List.compareLex_nil_cons, lexical_nil hne]
      exact ⟨fun _ => (Spells.last hne h).head [], fun _ => rfl⟩
    | cons hne h htext =>
      rw [List.compareLex_nil_cons, lexical_nil (List.append_ne_nil_of_left_ne_nil hne _)]
      exact ⟨fun _ => (Spells.cons hne h htext).head [], fun _ => rfl⟩
  | cons x more ih =>
    cases right with
    | nil =>
      cases hright
      have hne : u ≠ [] := fun hnil => absurd (hleft.nil_iff.2 hnil) (List.cons_ne_nil _ _)
      have hgt : lexical u [] = .gt := by
        obtain ⟨a, u, rfl⟩ := List.exists_cons_of_ne_nil hne
        exact List.compareLex_cons_nil
      rw [List.compareLex_cons_nil, hgt]
      refine ⟨fun _ h => ?_, fun _ => rfl⟩
      exact hleft.head [] (tangled_nil.1 h.symm)
    | cons y more' =>
      obtain ⟨-, hx, tail, rfl, htail⟩ := hleft.head_tail
      obtain ⟨-, hy, tail', rfl, htail'⟩ := hright.head_tail
      rw [List.compareLex_cons_cons]
      by_cases heq : x = y
      · subst heq
        rw [lexical_self, Ordering.eq_then, lexical_append, tangled_append]
        rcases htail with ⟨rfl, rfl⟩ | ⟨text, rfl, htext⟩
        · rcases htail' with ⟨rfl, rfl⟩ | ⟨text', rfl, htext'⟩
          · exact ih .nil .nil
          · rw [tangled_nil, lexical_nil (List.cons_ne_nil s text'), List.cons_inj_right, ← htext'.nil_iff]
            cases more' with
            | nil => simp [List.compareLex_nil_nil]
            | cons z more' => simp [List.compareLex_nil_cons]
        · rcases htail' with ⟨rfl, rfl⟩ | ⟨text', rfl, htext'⟩
          · have hgt : lexical (s :: text) [] = .gt := List.compareLex_cons_nil
            have hswap : Tangled s (s :: text) [] ↔ more = [] := by
              rw [htext.nil_iff, ← List.cons_inj_right s, ← tangled_nil]
              exact ⟨Tangled.symm, Tangled.symm⟩
            rw [hgt, hswap]
            cases more with
            | nil => simp [List.compareLex_nil_nil]
            | cons z more => simp [List.compareLex_cons_nil]
          · rw [lexical_cons, tangled_cons]
            exact ih htext htext'
      · rw [← differ_iff heq hx hy htail htail']
        cases hlex : lexical x y with
        | lt => rfl
        | eq => exact absurd (lexical_eq hlex) heq
        | gt => rfl

/-! ## texts that are lengthened -/

/-- what is added to `left`, where it begins `right`, goes before what `right` goes on with, or is that and
the order behind it decides -/
def Keeps (left left' right right' : List α) (behind : Ordering) : Prop :=
  left <+: right → left' = [] ∨ lexical left' (right.drop left.length ++ right') = .lt ∨
    left' = right.drop left.length ++ right' ∧ behind = .lt

instance (left left' right right' : List α) (behind : Ordering) :
    Decidable (Keeps left left' right right' behind) :=
  inferInstanceAs (Decidable (_ → _))

theorem keeps_iff (left left' : List α) {v : List α} (hne : v ≠ []) (right' : List α) (behind : Ordering) :
    Keeps left left' (left ++ v) right' behind ↔
      (lexical (left ++ left') (left ++ v ++ right')).then behind = .lt := by
  unfold Keeps
  rw [imp_iff_right (List.prefix_append left v), List.drop_left, List.append_assoc, lexical_append,
    Ordering.then_eq_lt]
  constructor
  · intro h
    rcases h with rfl | h | ⟨rfl, h⟩
    · exact Or.inl (lexical_nil (List.append_ne_nil_of_left_ne_nil hne _))
    · exact Or.inl h
    · exact Or.inr ⟨lexical_self _, h⟩
  · intro h
    rcases h with h | ⟨heq, h⟩
    · exact Or.inr (Or.inl h)
    · exact Or.inr (Or.inr ⟨lexical_eq heq, h⟩)

theorem keeps_apart {left right : List α} (h : ¬left <+: right) (left' right' : List α)
    (behind : Ordering) : Keeps left left' right right' behind := fun hprefix => absurd hprefix h

/-- **Two different texts, lengthened**, are in the order they were in -/
theorem lengthened_iff {left right : List α} (h : left ≠ right) (left' right' : List α) (behind : Ordering) :
    lexical left right = (lexical (left ++ left') (right ++ right')).then behind ↔
      Keeps left left' right right' behind ∧ Keeps right right' left left' behind.swap := by
  have hshort : ∀ {p v : List α}, v ≠ [] → ¬p ++ v <+: p := by
    intro p v hne hprefix
    have := hprefix.length_le
    have := List.length_pos_of_ne_nil hne
    rw [List.length_append] at *
    omega
  have hparted := parted left right
  cases hparted with
  | same => exact absurd rfl h
  | left p hne =>
    rw [lexical_longer left hne, keeps_iff left left' hne right' behind, eq_comm]
    exact (and_iff_left (keeps_apart (hshort hne) _ _ _)).symm
  | right p hne =>
    rw [keeps_iff right right' hne left' behind.swap, and_iff_right (keeps_apart (hshort hne) _ _ _),
      lexical_swap _ right, lexical_longer right hne, lexical_swap _ (right ++ right')]
    cases lexical (right ++ right') (right ++ _ ++ left') <;> cases behind <;> simp
  | @apart p a b hne u v =>
    have hnot : ∀ {a b : α} {u v : List α}, a ≠ b → ¬p ++ a :: u <+: p ++ b :: v := by
      intro a b u v hne hprefix
      rw [List.prefix_append_right_inj] at hprefix
      exact hne (List.cons_prefix_cons.1 hprefix).1
    refine iff_of_true ?_ ⟨keeps_apart (hnot hne) _ _ _, keeps_apart (hnot hne.symm) _ _ _⟩
    rw [lexical_append, lexical_differ hne, List.append_assoc, List.append_assoc, lexical_append, List.cons_append,
      List.cons_append, lexical_differ hne]
    cases hab : compare a b with
    | lt => rfl
    | eq => exact absurd (Std.LawfulEqOrd.eq_of_compare hab) hne
    | gt => rfl

/-- without its first separator `u` is to `v` as the separator is to the first of `v` -/
def LeadKeeps (separator : α) (u : List α) : List α → Prop
  | [] => u ≠ []
  | b :: v => lexical u (b :: v) = compare separator b

instance (separator : α) (u v : List α) : Decidable (LeadKeeps separator u v) := by
  cases v <;> unfold LeadKeeps <;> infer_instance

/-- **A text whose first separator is left out**, compared with one that does not begin with one. -/
theorem leading_iff (u : List α) {v : List α} (h : v.head? ≠ some s) :
    lexical (s :: u) v = lexical u v ↔ LeadKeeps s u v := by
  cases v with
  | nil =>
    have hgt : lexical (s :: u) [] = .gt := List.compareLex_cons_nil
    rw [hgt]
    cases u with
    | nil =>
      rw [lexical_self]
      exact ⟨fun h => absurd h (by decide), fun h => absurd rfl h⟩
    | cons a u => exact ⟨fun _ => List.cons_ne_nil a u, fun _ => List.compareLex_cons_nil.symm⟩
  | cons b v =>
    have hb : s ≠ b := fun heq => h (heq ▸ rfl)
    rw [lexical_differ hb]
    exact eq_comm

end Tsr.Lib.Separated
