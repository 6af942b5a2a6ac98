import Mathlib

/-!
# Parent links kept up to date

A forest is given by a parent function; a root is its own parent.  The nodes of a set of elements
are these elements and all that stand above them, less the roots: each node is linked to its parent.

* `Adds`      a walk upward that links what it passes, up to a parent that has a link already;
* `Removes`   a walk upward that takes links away, up to a parent that keeps another one;
* `nodes_adds`      linking a new element gives the nodes of the larger set;
* `nodes_removes`   taking old elements away gives the nodes of the rest,
                    if and only if no old element stands above a new one, and no element of the
                    new set stood above an old one and has nothing under it now.
-/

namespace Tsr.Lib.Ancestry

/-- a parent function whose walks end -/
structure Forest (P : Type) where
  parent : P → P
  rank : P → Nat
  rank_lt : ∀ p, parent p ≠ p → rank (parent p) < rank p

variable {P : Type} (T : Forest P)

/-- `Above c a`: `a` is `c`, or stands above it -/
inductive Above : P → P → Prop
  | refl (c : P) : Above c c
  | up {c a : P} (hroot : T.parent c ≠ c) (h : Above (T.parent c) a) : Above c a

variable {T} {a b c d x : P}

namespace Above

theorem trans (h : Above T a b) (h' : Above T b c) : Above T a c := by
  induction h with
  | refl c => exact h'
  | up hroot h ih => exact up hroot (ih h')

theorem rank_le (h : Above T c a) : T.rank a ≤ T.rank c := by
  induction h with
  | refl c => exact Nat.le_refl _
  | up hroot h ih => exact ih.trans (T.rank_lt _ hroot).le

theorem of_ne (h : Above T c a) (hne : c ≠ a) : T.parent c ≠ c ∧ Above T (T.parent c) a := by
  cases h with
  | refl c => exact absurd rfl hne
  | up hroot h => exact ⟨hroot, h⟩

theorem of_root (h : Above T c a) (hroot : T.parent c = c) : a = c := by
  cases h with
  | refl c => rfl
  | up hne h => exact absurd hroot hne

theorem parent (hroot : T.parent a ≠ a) : Above T a (T.parent a) := up hroot (refl _)

/-- nothing stands above its own parent -/
theorem not_below (hroot : T.parent a ≠ a) : ¬ Above T (T.parent a) a := by
  intro h
  exact absurd h.rank_le (Nat.not_le.2 (T.rank_lt a hroot))

/-- one that stands above another stands above a child of it, or is this one -/
theorem exists_child (h : Above T c a) (hne : c ≠ a) :
    ∃ d, Above T c d ∧ T.parent d = a ∧ T.parent d ≠ d := by
  induction h with
  | refl c => exact absurd rfl hne
  | @up c a hroot h ih =>
    by_cases hpa : T.parent c = a
    · exact ⟨c, refl c, hpa, hroot⟩
    · obtain ⟨d, h1, h2, h3⟩ := ih hpa
      exact ⟨d, up hroot h1, h2, h3⟩

/-- of two children of one parent none stands above the other -/
theorem sibling (h : Above T c d) (hparent : T.parent c = T.parent d) (hroot : T.parent d ≠ d) :
    c = d := by
  by_contra hne
  have hd := (h.of_ne hne).2
  rw [hparent] at hd
  exact not_below hroot hd

end Above

/-! ## the nodes of a set -/

/-- the elements of `F` and all above them, less the roots -/
def nodes (T : Forest P) (F : Set P) : Set P := {c | T.parent c ≠ c ∧ ∃ f ∈ F, Above T f c}

variable {F : Set P}

theorem nodes_up (h : c ∈ nodes T F) (ha : Above T c a) (hroot : T.parent a ≠ a) : a ∈ nodes T F := by
  obtain ⟨-, f, hf, hfc⟩ := h
  exact ⟨hroot, f, hf, hfc.trans ha⟩

/-- a node that is none of the elements has a node under it -/
theorem nodes_child (h : c ∈ nodes T F) (hc : c ∉ F) : ∃ d ∈ nodes T F, T.parent d = c := by
  obtain ⟨-, f, hf, hfc⟩ := h
  have hne : f ≠ c := by
    intro heq
    exact hc (heq ▸ hf)
  obtain ⟨d, h1, h2, h3⟩ := hfc.exists_child hne
  exact ⟨d, ⟨h3, f, hf, h1⟩, h2⟩

/-- some link leads to the parent of the element -/
def HasSibling (T : Forest P) (L : Set P) (c : P) : Prop := ∃ d ∈ L, T.parent d = T.parent c

/-! ## linking -/

/-- `Adds L c L'`: the walk that links `c` takes `L` to `L'` -/
inductive Adds (T : Forest P) : Set P → P → Set P → Prop
  | root {L : Set P} {c : P} (hroot : T.parent c = c) : Adds T L c L
  | stop {L : Set P} {c : P} (hroot : T.parent c ≠ c) (h : HasSibling T L c) :
      Adds T L c (insert c L)
  | up {L L' : Set P} {c : P} (hroot : T.parent c ≠ c) (h : ¬ HasSibling T L c)
      (hnext : Adds T (insert c L) (T.parent c) L') : Adds T L c L'

variable {L L' : Set P}

/-- every link is continued upward, but for those that lead to `c` -/
def ClosedBut (T : Forest P) (L : Set P) (c : P) : Prop :=
  ∀ x ∈ L, T.parent (T.parent x) ≠ T.parent x → T.parent x ∈ L ∨ T.parent x = c

/-- above a linked element all is linked -/
theorem ClosedBut.above (h : ClosedBut T L c) (hx : x ∈ L) (ha : Above T x a)
    (hc : ¬ Above T x c) (hroot : T.parent a ≠ a) : a ∈ L := by
  induction ha with
  | refl x => exact hx
  | @up x a hne ha ih =>
    have hp : T.parent (T.parent x) ≠ T.parent x := by
      intro hpar
      exact hroot (ha.of_root hpar ▸ hpar)
    rcases h x hx hp with hin | heq
    · exact ih hin (fun h' => hc (.up hne h')) hroot
    · exact absurd (.up hne (heq ▸ .refl _)) hc

theorem Adds.mem_iff (h : Adds T L c L') (hL : ClosedBut T L c) :
    x ∈ L' ↔ x ∈ L ∨ T.parent x ≠ x ∧ Above T c x := by
  induction h with
  | @root L c hroot =>
    constructor
    · exact .inl
    · rintro (hx | ⟨hx, ha⟩)
      · exact hx
      · exact absurd (ha.of_root hroot ▸ hroot) hx
  | @stop L c hroot hsib =>
    obtain ⟨d, hd, hparent⟩ := hsib
    constructor
    · rintro (rfl | hx)
      · exact .inr ⟨hroot, .refl _⟩
      · exact .inl hx
    · rintro (hx | ⟨hx, ha⟩)
      · exact .inr hx
      · by_cases hxc : c = x
        · exact .inl hxc.symm
        · -- the parent of `c` is linked, since a link leads to it
          have hup := (ha.of_ne hxc).2
          have hp : T.parent (T.parent c) ≠ T.parent c := by
            intro hpar
            exact hx (hup.of_root hpar ▸ hpar)
          have hin : T.parent c ∈ L := by
            rcases hL d hd (by rwa [hparent]) with hin | heq
            · rwa [hparent] at hin
            · exact absurd (hparent.symm.trans heq) hroot
          exact .inr (hL.above hin hup (Above.not_below hroot) hx)
  | @up L L' c hroot hsib hnext ih =>
    have hclosed : ClosedBut T (insert c L) (T.parent c) := by
      rintro x (rfl | hx) hp
      · exact .inr rfl
      · rcases hL x hx hp with hin | heq
        · exact .inl (.inr hin)
        · exact .inl (.inl heq)
    rw [ih hclosed]
    constructor
    · rintro ((rfl | hx) | ⟨hx, ha⟩)
      · exact .inr ⟨hroot, .refl _⟩
      · exact .inl hx
      · exact .inr ⟨hx, .up hroot ha⟩
    · rintro (hx | ⟨hx, ha⟩)
      · exact .inl (.inr hx)
      · by_cases hxc : c = x
        · exact .inl (.inl hxc.symm)
        · exact .inr ⟨hx, (ha.of_ne hxc).2⟩

theorem closedBut_nodes (F : Set P) (c : P) : ClosedBut T (nodes T F) c := by
  intro x hx hp
  exact .inl (nodes_up hx (Above.parent hx.1) hp)

/-- **Linking a new element gives the nodes of the larger set.** -/
theorem nodes_adds (h : Adds T (nodes T F) c L') : L' = nodes T (insert c F) := by
  ext x
  rw [h.mem_iff (closedBut_nodes F c)]
  constructor
  · rintro (⟨hx, f, hf, ha⟩ | ⟨hx, ha⟩)
    · exact ⟨hx, f, .inr hf, ha⟩
    · exact ⟨hx, c, .inl rfl, ha⟩
  · rintro ⟨hx, f, rfl | hf, ha⟩
    · exact .inr ⟨hx, ha⟩
    · exact .inl ⟨hx, f, hf, ha⟩

/-! ## taking links away -/

/-- `Removes L c L'`: the walk that takes the link of `c` away takes `L` to `L'` -/
inductive Removes (T : Forest P) : Set P → P → Set P → Prop
  | root {L : Set P} {c : P} (hroot : T.parent c = c) : Removes T L c L
  | absent {L : Set P} {c : P} (hroot : T.parent c ≠ c) (h : ¬ HasSibling T L c) : Removes T L c L
  | stop {L : Set P} {c : P} (hroot : T.parent c ≠ c) (h : HasSibling T (L \ {c}) c) :
      Removes T L c (L \ {c})
  | up {L L' : Set P} {c : P} (hroot : T.parent c ≠ c) (h : ¬ HasSibling T (L \ {c}) c)
      (hnext : Removes T (L \ {c}) (T.parent c) L') : Removes T L c L'

namespace Removes

theorem subset (h : Removes T L c L') : L' ⊆ L := by
  induction h with
  | root hroot => exact Set.Subset.rfl
  | absent hroot h => exact Set.Subset.rfl
  | stop hroot h => exact Set.sdiff_subset
  | up hroot h hnext ih => exact ih.trans Set.sdiff_subset

/-- the element itself is not linked any more -/
theorem not_mem (h : Removes T L c L') (hroot : T.parent c ≠ c) : c ∉ L' := by
  cases h with
  | root h => exact absurd h hroot
  | absent _ h => exact fun hc => h ⟨c, hc, rfl⟩
  | stop _ h => exact fun hc => hc.2 rfl
  | up _ h hnext => exact fun hc => (hnext.subset hc).2 rfl

/-- with the last link to a parent goes that of the parent -/
theorem parent_not_mem (h : Removes T L c L') (hroot : T.parent a ≠ a)
    (hbefore : ∃ d ∈ L, T.parent d = a) (hafter : ¬ ∃ d ∈ L', T.parent d = a) : a ∉ L' := by
  induction h with
  | root h => exact absurd hbefore hafter
  | absent _ h => exact absurd hbefore hafter
  | @stop L c _ h =>
    obtain ⟨d, hd, hda⟩ := hbefore
    have hdc : d = c := by
      by_contra hne
      exact hafter ⟨d, ⟨hd, hne⟩, hda⟩
    obtain ⟨e, he, hec⟩ := h
    exact absurd ⟨e, he, hec.trans (hdc ▸ hda)⟩ hafter
  | @up L L' c _ h hnext ih =>
    by_cases hrest : ∃ d ∈ L \ {c}, T.parent d = a
    · exact ih hrest hafter
    · obtain ⟨d, hd, hda⟩ := hbefore
      have hdc : d = c := by
        by_contra hne
        exact hrest ⟨d, ⟨hd, hne⟩, hda⟩
      rw [← hdc, hda] at hnext
      exact hnext.not_mem hroot

end Removes

/-- `Linked L r c`: all from `r` up to `c` is linked -/
inductive Linked (T : Forest P) (L : Set P) : P → P → Prop
  | refl {c : P} (h : c ∈ L) : Linked T L c c
  | up {r c : P} (h : r ∈ L) (hroot : T.parent r ≠ r) (hnext : Linked T L (T.parent r) c) :
      Linked T L r c

namespace Linked

theorem above (h : Linked T L a c) : Above T a c := by
  induction h with
  | refl h => exact .refl _
  | up h hroot hnext ih => exact .up hroot ih

theorem mem (h : Linked T L a c) : a ∈ L := by
  cases h with
  | refl h => exact h
  | up h _ _ => exact h

theorem trans (h : Linked T L a b) (h' : Linked T L b c) : Linked T L a c := by
  induction h with
  | refl h => exact h'
  | up h hroot hnext ih => exact up h hroot (ih h')

/-- a link outside the line can go -/
theorem diff (h : Linked T L a c) (hb : ¬ Above T a b) : Linked T (L \ {b}) a c := by
  induction h with
  | @refl c h => exact refl ⟨h, fun heq => hb (heq ▸ .refl _)⟩
  | @up r c h hroot hnext ih =>
    exact up ⟨h, fun heq => hb (heq ▸ .refl _)⟩ hroot (ih fun h' => hb (.up hroot h'))

/-- the line is kept, or it passes the link that goes -/
theorem diff_or (h : Linked T L a c) : Linked T (L \ {b}) a c ∨ Linked T L b c := by
  induction h with
  | @refl c h =>
    by_cases heq : c = b
    · exact .inr (heq ▸ refl h)
    · exact .inl (refl ⟨h, heq⟩)
  | @up r c h hroot hnext ih =>
    by_cases heq : r = b
    · exact .inr (heq ▸ up h hroot hnext)
    · rcases ih with ih | ih
      · exact .inl (up ⟨h, heq⟩ hroot ih)
      · exact .inr ih

/-- what lies above `c` on the line is linked without `c` -/
theorem tail (h : Linked T L c x) (hne : c ≠ x) : Linked T (L \ {c}) (T.parent c) x := by
  cases h with
  | refl h => exact absurd rfl hne
  | up h hroot hnext => exact hnext.diff (Above.not_below hroot)

theorem of_nodes (hr : a ∈ F) (h : Above T a c) (hroot : T.parent c ≠ c) (hL : nodes T F ⊆ L) :
    Linked T L a c := by
  have hall : ∀ x, Above T a x → T.parent x ≠ x → x ∈ L := fun x hx hne => hL ⟨hne, a, hr, hx⟩
  clear hr
  induction h with
  | refl c => exact refl (hall c (.refl c) hroot)
  | @up r c hne h ih =>
    refine up (hall r (.refl r) hne) hne (ih hroot ?_)
    intro x hx hxne
    exact hall x (.up hne hx) hxne

end Linked

section
variable {base files rem : Set P}

/-- old elements go without harm to the nodes of the new ones -/
structure Replaces (T : Forest P) (base files : Set P) : Prop where
  /-- no old element stands above a new one -/
  above : ∀ r ∈ base, r ∉ files → T.parent r ≠ r → ¬ ∃ f ∈ files, Above T f r
  /-- a new element above an old one has new elements under it -/
  below : ∀ f ∈ files, T.parent f ≠ f → (∃ b ∈ base, b ≠ f ∧ Above T b f) →
    ∃ g ∈ files, g ≠ f ∧ Above T g f

/-- while the elements of `rem` are still to go, every link too many is on the line of one of them -/
structure Pending (T : Forest P) (files rem L : Set P) : Prop where
  nodes : nodes T files ⊆ L
  noRoot : ∀ c ∈ L, T.parent c ≠ c
  line : ∀ c ∈ L, c ∉ Ancestry.nodes T files → ∃ r ∈ rem, Linked T L r c

/-- the invariant of a walk that has come to `c` -/
structure Walking (T : Forest P) (files rem L : Set P) (c : P) : Prop where
  nodes : nodes T files ⊆ L
  noRoot : ∀ x ∈ L, T.parent x ≠ x
  here : c ∉ Ancestry.nodes T files
  line : ∀ x ∈ L, x ∉ Ancestry.nodes T files → (∃ r ∈ rem, Linked T L r x) ∨ Linked T L c x

theorem Walking.diff_nodes (h : Walking T files rem L c) : Ancestry.nodes T files ⊆ L \ {c} := by
  intro x hx
  refine ⟨h.nodes hx, ?_⟩
  intro heq
  exact h.here (heq ▸ hx)

theorem Walking.stop (h : Walking T files rem L c) (hsib : HasSibling T (L \ {c}) c) :
    Pending T files rem (L \ {c}) := by
  refine ⟨h.diff_nodes, fun x hx => h.noRoot x hx.1, ?_⟩
  intro x hx hnode
  -- a line through `c` is replaced by one through the sibling that is left
  have hmine : Linked T L c x → ∃ r ∈ rem, Linked T (L \ {c}) r x := by
    intro hline
    have htail := hline.tail (Ne.symm hx.2)
    obtain ⟨d, ⟨hd, hdc⟩, hparent⟩ := hsib
    have hdroot := h.noRoot d hd
    have hdx : Linked T (L \ {c}) d x := by
      refine .up ⟨hd, hdc⟩ hdroot ?_
      rwa [hparent]
    have hdnode : d ∉ Ancestry.nodes T files := fun hd' => hnode (nodes_up hd' hdx.above (h.noRoot x hx.1))
    rcases h.line d hd hdnode with ⟨r, hr, hrd⟩ | hcd
    · refine ⟨r, hr, Linked.trans ?_ hdx⟩
      rcases hrd.diff_or (b := c) with hkept | hcd
      · exact hkept
      · exact absurd (hcd.above.sibling hparent.symm hdroot).symm hdc
    · exact absurd (hcd.above.sibling hparent.symm hdroot).symm hdc
  rcases h.line x hx.1 hnode with ⟨r, hr, hrx⟩ | hcx
  · rcases hrx.diff_or (b := c) with hkept | hcx
    · exact ⟨r, hr, hkept⟩
    · exact hmine hcx
  · exact hmine hcx

theorem Walking.up (h : Walking T files rem L c) (hsib : ¬ HasSibling T (L \ {c}) c)
    (hfile : T.parent c ∈ files → T.parent (T.parent c) ≠ T.parent c →
      ∃ g ∈ files, g ≠ T.parent c ∧ Above T g (T.parent c)) :
    Walking T files rem (L \ {c}) (T.parent c) := by
  refine ⟨h.diff_nodes, fun x hx => h.noRoot x hx.1, ?_, ?_⟩
  · intro hnode
    -- a node has a node under it, and that one would be left
    have hchild : ∃ d ∈ Ancestry.nodes T files, T.parent d = T.parent c := by
      by_cases hin : T.parent c ∈ files
      · obtain ⟨g, hg, hne, ha⟩ := hfile hin hnode.1
        obtain ⟨d, h1, h2, h3⟩ := ha.exists_child hne
        exact ⟨d, ⟨h3, g, hg, h1⟩, h2⟩
      · exact nodes_child hnode hin
    obtain ⟨d, hd, hparent⟩ := hchild
    exact hsib ⟨d, h.diff_nodes hd, hparent⟩
  · intro x hx hnode
    have hmine : Linked T L c x → Linked T (L \ {c}) (T.parent c) x :=
      fun hline => hline.tail (Ne.symm hx.2)
    rcases h.line x hx.1 hnode with ⟨r, hr, hrx⟩ | hcx
    · rcases hrx.diff_or (b := c) with hkept | hcx
      · exact .inl ⟨r, hr, hkept⟩
      · exact .inr (hmine hcx)
    · exact .inr (hmine hcx)

theorem Walking.removes (h : Walking T files rem L c) (hw : Removes T L c L')
    (hfile : ∀ f ∈ files, T.parent f ≠ f → c ≠ f → Above T c f →
      ∃ g ∈ files, g ≠ f ∧ Above T g f) : Pending T files rem L' := by
  induction hw with
  | @root L c hroot =>
    refine ⟨h.nodes, h.noRoot, ?_⟩
    intro x hx hnode
    rcases h.line x hx hnode with hrem | hcx
    · exact hrem
    · exact absurd hroot (h.noRoot c hcx.mem)
  | @absent L c hroot hsib =>
    refine ⟨h.nodes, h.noRoot, ?_⟩
    intro x hx hnode
    rcases h.line x hx hnode with hrem | hcx
    · exact hrem
    · exact absurd ⟨c, hcx.mem, rfl⟩ hsib
  | stop _ hsib => exact h.stop hsib
  | @up L L' c hroot hsib hnext ih =>
    refine ih (h.up hsib ?_) ?_
    · intro hin hp
      exact hfile _ hin hp (Ne.symm hroot) (Above.parent hroot)
    · intro f hf hfroot hne ha
      refine hfile f hf hfroot ?_ (.up hroot ha)
      intro heq
      exact Above.not_below hroot (heq ▸ ha)

/-- one old element goes -/
theorem Pending.removes {r : P} (h : Pending T files (insert r rem) L) (hR : Replaces T base files)
    (hbase : r ∈ base) (hr : r ∉ files) (hw : Removes T L r L') : Pending T files rem L' := by
  by_cases hroot : T.parent r = r
  · -- a root has no link
    have hL : L' = L := by
      cases hw with
      | root _ => rfl
      | absent hne _ => exact absurd hroot hne
      | stop hne _ => exact absurd hroot hne
      | up hne _ _ => exact absurd hroot hne
    subst hL
    refine ⟨h.nodes, h.noRoot, ?_⟩
    intro x hx hnode
    obtain ⟨r', rfl | hr', hline⟩ := h.line x hx hnode
    · exact absurd hroot (h.noRoot _ hline.mem)
    · exact ⟨r', hr', hline⟩
  · have hwalk : Walking T files rem L r := by
      refine ⟨h.nodes, h.noRoot, ?_, ?_⟩
      · rintro ⟨hne, f, hf, ha⟩
        exact hR.above r hbase hr hne ⟨f, hf, ha⟩
      · intro x hx hnode
        obtain ⟨r', rfl | hr', hline⟩ := h.line x hx hnode
        · exact .inr hline
        · exact .inl ⟨r', hr', hline⟩
    refine hwalk.removes hw ?_
    intro f hf hfroot hne ha
    exact hR.below f hf hfroot ⟨r, hbase, hne, ha⟩

end

/-! ## all elements -/

/-- a walk for each element of a list -/
inductive Each (W : Set P → P → Set P → Prop) : Set P → List P → Set P → Prop
  | nil (L : Set P) : Each W L [] L
  | cons {L L₁ L₂ : Set P} {c : P} {cs : List P} (h : W L c L₁) (hrest : Each W L₁ cs L₂) :
      Each W L (c :: cs) L₂

theorem nodes_addsAll {added : List P} (h : Each (Adds T) (nodes T F) added L') :
    L' = nodes T (F ∪ {c | c ∈ added}) := by
  induction added generalizing F with
  | nil =>
    cases h with
    | nil => simp
  | cons c cs ih =>
    cases h with
    | cons h hrest =>
      rw [nodes_adds h] at hrest
      rw [ih hrest]
      congr 1
      ext x
      simp only [Set.mem_union, Set.mem_insert_iff, Set.mem_ofPred_eq, List.mem_cons]
      tauto

theorem Each.subset {cs : List P} (h : Each (Removes T) L cs L') : L' ⊆ L := by
  induction h with
  | nil L => exact Set.Subset.rfl
  | cons h hrest ih => exact ih.trans h.subset

theorem Each.not_mem {cs : List P} (h : Each (Removes T) L cs L') (hc : c ∈ cs)
    (hroot : T.parent c ≠ c) : c ∉ L' := by
  induction h with
  | nil L => exact absurd hc List.not_mem_nil
  | cons h hrest ih =>
    rcases List.mem_cons.1 hc with rfl | hc
    · exact fun hin => h.not_mem hroot (hrest.subset hin)
    · exact ih hc

theorem Each.parent_not_mem {cs : List P} (h : Each (Removes T) L cs L') (hroot : T.parent a ≠ a)
    (hbefore : ∃ d ∈ L, T.parent d = a) (hafter : ¬ ∃ d ∈ L', T.parent d = a) : a ∉ L' := by
  induction h with
  | nil L => exact absurd hbefore hafter
  | @cons L L₁ L₂ c cs h hrest ih =>
    by_cases hmid : ∃ d ∈ L₁, T.parent d = a
    · exact ih hmid hafter
    · exact fun hin => h.parent_not_mem hroot hbefore hmid (hrest.subset hin)

theorem Pending.removesAll {base files : Set P} {cs : List P} (hR : Replaces T base files)
    (hcs : ∀ r ∈ cs, r ∈ base ∧ r ∉ files) (h : Pending T files {r | r ∈ cs} L)
    (hw : Each (Removes T) L cs L') : Pending T files ∅ L' := by
  induction hw with
  | nil L => exact ⟨h.nodes, h.noRoot, by simpa using h.line⟩
  | @cons L L₁ L₂ c cs hc hrest ih =>
    obtain ⟨hbase, hfiles⟩ := hcs c List.mem_cons_self
    refine ih (fun r hr => hcs r (List.mem_cons_of_mem c hr)) ?_
    refine Pending.removes ?_ hR hbase hfiles hc
    have hset : {r | r ∈ c :: cs} = insert c {r | r ∈ cs} := by
      ext r
      simp
    rwa [← hset]

/-- **The links are those of the new elements, if and only if the old ones went without harm.** -/
theorem nodes_removes {base files : Set P} {cs : List P}
    (hcs : ∀ r, r ∈ cs ↔ r ∈ base ∧ r ∉ files)
    (hw : Each (Removes T) (nodes T (base ∪ files)) cs L') :
    L' = nodes T files ↔ Replaces T base files := by
  constructor
  · rintro rfl
    refine ⟨?_, ?_⟩
    · intro r hr hfiles hroot hf
      exact hw.not_mem ((hcs r).2 ⟨hr, hfiles⟩) hroot ⟨hroot, hf⟩
    · intro f hf hroot hbase
      obtain ⟨b, hb, hne, ha⟩ := hbase
      by_contra hnone
      refine hw.parent_not_mem hroot ?_ ?_ ⟨hroot, f, hf, .refl f⟩
      · obtain ⟨d, h1, h2, h3⟩ := ha.exists_child hne
        exact ⟨d, ⟨h3, b, .inl hb, h1⟩, h2⟩
      · rintro ⟨d, ⟨hd, g, hg, hgd⟩, rfl⟩
        refine hnone ⟨g, hg, ?_, hgd.trans (Above.parent hd)⟩
        rintro rfl
        exact Above.not_below hd hgd
  · intro hR
    have hpend : Pending T files {r | r ∈ cs} (nodes T (base ∪ files)) := by
      refine ⟨?_, fun c hc => hc.1, ?_⟩
      · rintro x ⟨hx, f, hf, ha⟩
        exact ⟨hx, f, .inr hf, ha⟩
      · rintro x ⟨hx, f, hf, ha⟩ hnode
        have hfiles : f ∉ files := fun hin => hnode ⟨hx, f, hin, ha⟩
        rcases hf with hf | hf
        · exact ⟨f, (hcs f).2 ⟨hf, hfiles⟩, Linked.of_nodes (.inl hf) ha hx Set.Subset.rfl⟩
        · exact absurd hf hfiles
    have hdone := hpend.removesAll hR (fun r hr => (hcs r).1 hr) hw
    apply Set.Subset.antisymm
    · intro x hx
      by_contra hnode
      obtain ⟨r, hr, -⟩ := hdone.line x hx hnode
      exact hr
    · exact hdone.nodes

end Tsr.Lib.Ancestry
