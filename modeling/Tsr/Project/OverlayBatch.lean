import Tsr.Project.OverlayOneByOne
import Tsr.Project.OverlayLatches

/-!
# One batch and batches of one event

* `Alike`               the edits of a file do not look at the flag that compares it with the disk;
* `single_flag`         under batches of one event the last event to ask sets this flag;
* `Misjudged`           the events of a file that stays open, for which one batch sets another flag;
* `batch_same_iff`      both ways agree on all else, and on the flags if and only if no file is misjudged.
-/

set_option linter.unusedSectionVars false

namespace Tsr.Project
open Tsr.Json (Bytes)
open Tsr.Lib.Result Tsr.Lib.Latch

variable {E H : Type} [DecidableEq H] (host : OverlayHost E H)

/-! ## edits -/

/-- the same but for the flag that compares it with the disk -/
def Alike (f g : FileHandle) : Prop := f.withDiskMatch false = g.withDiskMatch false

section
variable {host} {f f' g : FileHandle}

theorem Alike.refl (f : FileHandle) : Alike f f := rfl

theorem Alike.symm (h : Alike f g) : Alike g f := Eq.symm h

theorem Alike.trans (h : Alike f f') (h' : Alike f' g) : Alike f g := Eq.trans h h'

theorem alike_withDiskMatch (f : FileHandle) (b : Bool) : Alike (f.withDiskMatch b) f := rfl

theorem Alike.eq (h : Alike f g) : g = f.withDiskMatch g.matchesDisk := by
  obtain ⟨name, content, version, kind, matchesDisk⟩ := f
  obtain ⟨name', content', version', kind', matchesDisk'⟩ := g
  cases h
  rfl

theorem applyEdit_alike (h : Alike f g) (version : Int32) (edit : ContentChange) {f' : FileHandle}
    (hf : applyEdit host version f edit = .ok f') :
    ∃ g', applyEdit host version g edit = .ok g' ∧ Alike f' g' := by
  rw [h.eq, applyEdit]
  rw [applyEdit, bind_eq_ok] at hf
  obtain ⟨content, hcontent, hf⟩ := hf
  have hsame : editedContent host (f.withDiskMatch g.matchesDisk).content edit = .ok content := hcontent
  rw [hsame, ok_bind]
  cases content with
  | some content =>
    cases hf
    exact ⟨_, rfl, rfl⟩
  | none =>
    cases hf
    exact ⟨_, rfl, rfl⟩

theorem edits_alike (edits : List ContentChange) (h : Alike f g) (version : Int32)
    (hf : edits.foldlM (applyEdit host version) f = .ok f') :
    ∃ g', edits.foldlM (applyEdit host version) g = .ok g' ∧ Alike f' g' := by
  induction edits generalizing f g with
  | nil =>
    cases hf
    exact ⟨g, rfl, h⟩
  | cons edit edits ih =>
    rw [List.foldlM_cons, bind_eq_ok] at hf
    obtain ⟨f1, h1, h2⟩ := hf
    obtain ⟨g1, hg1, halike⟩ := applyEdit_alike h version edit h1
    obtain ⟨g', hg', halike'⟩ := ih halike h2
    refine ⟨g', ?_, halike'⟩
    rw [List.foldlM_cons, hg1]
    exact hg'

/-- what the edits of an event leave is not that on disk, as far as is known -/
theorem changeFile_eq (f : FileHandle) (c : FileChange) :
    changeFile host f c =
      if c.changes = [] then .ok f
      else (c.changes.foldlM (applyEdit host c.version) f).map fun edited =>
        .overlay edited.name edited.content c.version edited.kind := by
  rw [changeFile]
  cases hchanges : c.changes with
  | nil => rfl
  | cons edit edits =>
    rw [if_neg (List.cons_ne_nil _ _)]
    cases (edit :: edits).foldlM (applyEdit host c.version) f with
    | error e => rfl
    | ok edited =>
      rw [ok_bind, if_neg (by simp)]
      obtain ⟨name, content, version, kind, matchesDisk⟩ := edited
      by_cases hsame : version = c.version ∧ (!matchesDisk) = true
      · rw [if_pos hsame]
        obtain ⟨rfl, hfalse⟩ := hsame
        rw [Bool.not_eq_true'] at hfalse
        rw [hfalse]
        rfl
      · rw [if_neg hsame]
        rfl

theorem changeFile_alike (h : Alike f g) {c : FileChange} (hf : changeFile host f c = .ok f') :
    ∃ g', changeFile host g c = .ok g' ∧ Alike f' g' ∧
      (c.changes ≠ [] → g'.matchesDisk = false) ∧ (c.changes = [] → g' = g) := by
  rw [changeFile_eq] at hf ⊢
  by_cases hnil : c.changes = []
  · rw [if_pos hnil] at hf ⊢
    cases hf
    exact ⟨g, rfl, h, fun hne => absurd hnil hne, fun _ => rfl⟩
  · rw [if_neg hnil] at hf ⊢
    cases hedit : c.changes.foldlM (applyEdit host c.version) f with
    | error e =>
      rw [hedit] at hf
      cases hf
    | ok edited =>
      rw [hedit] at hf
      cases hf
      obtain ⟨edited', hedit', halike⟩ := edits_alike c.changes h c.version hedit
      rw [hedit', halike.eq]
      exact ⟨_, rfl, rfl, fun _ => rfl, fun h' => absurd h' hnil⟩

/-- the changes of a file, one after the other -/
theorem changes_alike (cs : List FileChange) (h : Alike f g)
    (hf : cs.foldlM (changeFile host) f = .ok f') :
    ∃ g', cs.foldlM (changeFile host) g = .ok g' ∧ Alike f' g' ∧
      ((∃ c ∈ cs, c.changes ≠ []) → g'.matchesDisk = false) ∧
      ((∀ c ∈ cs, c.changes = []) → g' = g) := by
  induction cs generalizing f g with
  | nil =>
    cases hf
    refine ⟨g, rfl, h, ?_, fun _ => rfl⟩
    intro hc
    obtain ⟨c, hc, -⟩ := hc
    cases hc
  | cons c cs ih =>
    rw [List.foldlM_cons, bind_eq_ok] at hf
    obtain ⟨f1, h1, h2⟩ := hf
    obtain ⟨g1, hg1, halike, hfalse, hsame⟩ := changeFile_alike h h1
    obtain ⟨g', hg', halike', hfalse', hsame'⟩ := ih halike h2
    refine ⟨g', ?_, halike', ?_, ?_⟩
    · rw [List.foldlM_cons, hg1]
      exact hg'
    · intro hc
      by_cases hrest : ∃ c ∈ cs, c.changes ≠ []
      · exact hfalse' hrest
      · obtain ⟨c', hc', hne⟩ := hc
        rcases List.mem_cons.1 hc' with rfl | hc'
        · rw [hsame' (by
            intro c hc
            by_contra hne'
            exact hrest ⟨c, hc, hne'⟩)]
          exact hfalse hne
        · exact absurd ⟨c', hc', hne⟩ hrest
    · intro hc
      rw [hsame' fun c' hc' => hc c' (List.mem_cons_of_mem _ hc'), hsame (hc c List.mem_cons_self)]

theorem applyEdit_name {f f' : FileHandle} {version : Int32} {edit : ContentChange}
    (h : applyEdit host version f edit = .ok f') : f'.name = f.name := by
  rw [applyEdit, bind_eq_ok] at h
  obtain ⟨content, -, h⟩ := h
  cases content <;> cases h <;> rfl

theorem changeFile_name {f f' : FileHandle} {c : FileChange} (h : changeFile host f c = .ok f') :
    f'.name = f.name := by
  rw [changeFile_eq] at h
  split at h
  next =>
    cases h
    rfl
  next =>
    cases hedit : c.changes.foldlM (applyEdit host c.version) f with
    | error e =>
      rw [hedit] at h
      cases h
    | ok edited =>
      rw [hedit] at h
      cases h
      show edited.name = f.name
      generalize c.changes = edits at hedit
      induction edits generalizing f with
      | nil =>
        cases hedit
        rfl
      | cons edit edits ih =>
        rw [List.foldlM_cons, bind_eq_ok] at hedit
        obtain ⟨f1, h1, h2⟩ := hedit
        rw [ih h2, applyEdit_name h1]

end

/-! ## the text on disk -/

/-- whether the text is that on disk; the disk answers -/
def diskMatch (file : FileHandle) : Bool :=
  match file.computeDiskMatch host with
  | .ok (matchesDisk, _) => matchesDisk
  | .error _ => false

def readable (file : FileHandle) : Bool := (file.computeDiskMatch host).toBool

section
variable {host} {f g : FileHandle}

theorem computeDiskMatch_alike (h : Alike f g) : f.computeDiskMatch host = g.computeDiskMatch host := by
  rw [h.eq]
  rfl

theorem readable_name (h : f.name = g.name) : readable host f = readable host g := by
  rw [readable, readable, FileHandle.computeDiskMatch, FileHandle.computeDiskMatch, h]
  split
  next => rfl
  next => cases host.readFile g.name with
    | error e => rfl
    | ok content => cases content <;> rfl

theorem keptStep_name (f : FileHandle) (c : FileChange) : (keptStep host f c).name = f.name := by
  rw [keptStep]
  cases c.kind with
  | change =>
    show (editStep host f c).name = f.name
    rw [editStep]
    cases h : changeFile host f c with
    | ok edited => exact changeFile_name h
    | error e => rfl
  | watchChange =>
    show (watchStep host f).name = f.name
    rw [watchStep]
    cases f.computeDiskMatch host <;> rfl
  | openFile | close | save | watchCreate | watchDelete => rfl

theorem foldl_keptStep_name (es : List FileChange) (f : FileHandle) :
    (es.foldl (keptStep host) f).name = f.name := by
  induction es generalizing f with
  | nil => rfl
  | cons c es ih => exact (ih (keptStep host f c)).trans (keptStep_name f c)

/-- only a change has edits -/
theorem keptStep_alike {c : FileChange} (hkind : c.kind ≠ .change) : Alike (keptStep host f c) f := by
  rw [keptStep]
  cases h : c.kind with
  | change => exact absurd h hkind
  | watchChange =>
    show Alike (watchStep host f) f
    rw [watchStep]
    cases f.computeDiskMatch host with
    | ok m => exact alike_withDiskMatch f m.1
    | error e => exact .refl f
  | save => exact alike_withDiskMatch f true
  | openFile | close | watchCreate | watchDelete => exact .refl f

theorem keptStep_change {c : FileChange} (hkind : c.kind = .change) :
    keptStep host f c = editStep host f c := by
  rw [keptStep, hkind]

/-- the edits of a file under batches of one event are those of one batch -/
theorem foldl_keptStep_alike (es : List FileChange)
    (h : (es.filter fun c => c.kind = .change).foldlM (changeFile host) f = .ok g) :
    Alike (es.foldl (keptStep host) f) g := by
  induction es using List.reverseRecOn generalizing g with
  | nil =>
    cases h
    exact .refl f
  | append_singleton es c ih =>
    rw [filter_change_snoc, List.foldlM_append, bind_eq_ok] at h
    obtain ⟨g1, h1, h2⟩ := h
    rw [List.foldl_append]
    show Alike (keptStep host (es.foldl (keptStep host) f) c) g
    by_cases hkind : c.kind = .change
    · rw [if_pos hkind, List.foldlM_cons, bind_eq_ok] at h2
      obtain ⟨g2, h2, h3⟩ := h2
      cases h3
      obtain ⟨g', hg', halike, -, -⟩ := changeFile_alike (ih h1).symm h2
      rw [keptStep_change hkind, editStep, hg']
      exact halike.symm
    · rw [if_neg hkind] at h2
      cases h2
      exact (keptStep_alike hkind).trans (ih h1)

end

/-! ## which event is the last to ask -/

section
variable (f : FileHandle) (es : List FileChange)

/-- an event that sets the flag when it is a batch of its own -/
def asks (c : FileChange) : Bool :=
  c.kind = .save ∨ (c.kind = .change ∧ c.changes ≠ []) ∨ (c.kind = .watchChange ∧ readable host f = true)

def lastAsk : Option FileChange := (es.filter (asks host f)).getLast?

/-- some change has edits -/
def Edits : Prop := ∃ c ∈ es, c.kind = .change ∧ c.changes ≠ []

/-- the file with the edits of all changes -/
def edited : FileHandle := (es.filter fun c => c.kind = .change).foldl (editStep host) f

/-- the flag of a batch that has forgotten its saves -/
inductive Unsaved : Bool → Prop
  | edits (h : Edits es) : Unsaved false
  | watch (h : ¬ Edits es) (hw : WatchStands es) : Unsaved (diskMatch host f)
  | same (h : ¬ Edits es) (hw : ¬ WatchStands es) : Unsaved f.matchesDisk

/-- the events of a file that stays open for which one batch sets another flag than batches of one
event: the last event to ask is a save that the batch forgets, or a change on disk that it does not
heed, forgets or compares with the text in front of the edits; or there is none, and the file is deleted
and created again -/
inductive Misjudged : Prop
  | save (c : FileChange) (hlast : lastAsk host f es = some c) (hc : c.kind = .save)
      (hforgets : ¬ SaveStands es) (hflag : Unsaved host f es false)
  | watchSaved (c : FileChange) (hlast : lastAsk host f es = some c) (hc : c.kind = .watchChange)
      (hstands : SaveStands es) (hflag : diskMatch host (edited host f es) = false)
  | watch (c : FileChange) (hlast : lastAsk host f es = some c) (hc : c.kind = .watchChange)
      (hforgets : ¬ SaveStands es) (hflag : Unsaved host f es (!diskMatch host (edited host f es)))
  | recreated (hlast : lastAsk host f es = none) (hwatch : WatchStands es)
      (hflag : diskMatch host f ≠ f.matchesDisk)

variable {host f es} {g : FileHandle} {c : FileChange}

theorem lastAsk_snoc : lastAsk host f (es ++ [c]) = if asks host f c then some c else lastAsk host f es := by
  rw [lastAsk, List.filter_append, List.filter_cons, List.filter_nil]
  cases asks host f c with
  | true => exact List.getLast?_concat
  | false => rw [if_neg Bool.false_ne_true, if_neg Bool.false_ne_true, List.append_nil, lastAsk]

theorem asks_iff : asks host f c = true ↔ c.kind = .save ∨ (c.kind = .change ∧ c.changes ≠ []) ∨
    (c.kind = .watchChange ∧ readable host f = true) := decide_eq_true_iff

theorem lastAsk_asks (h : lastAsk host f es = some c) : c ∈ es ∧ asks host f c = true :=
  List.mem_filter.1 (List.mem_of_getLast? h)

theorem lastAsk_none (h : lastAsk host f es = none) : ∀ c ∈ es, ¬ asks host f c = true := by
  intro c hc
  exact List.filter_eq_nil_iff.1 (List.getLast?_eq_none_iff.1 h) c hc

/-- a save that stands is the last event to ask, or only changes on disk ask behind it -/
theorem not_saveStands (h : ∀ c, lastAsk host f es = some c → c.kind = .change) : ¬ SaveStands es := by
  induction es using List.reverseRecOn with
  | nil => exact not_stands_nil
  | append_singleton es c ih =>
    rw [lastAsk_snoc] at h
    rw [saveStands_snoc]
    intro hstands
    by_cases hasks : asks host f c = true
    · have hkind := h c (by rw [if_pos hasks])
      rcases hstands with hsave | ⟨hkeep, -⟩
      · rw [hkind] at hsave
        cases hsave
      · exact hkeep (Or.inl (Or.inl hkind))
    · rw [if_neg hasks] at h
      rcases hstands with hsave | ⟨-, hrest⟩
      · exact hasks (asks_iff.2 (Or.inl hsave))
      · exact ih h hrest

theorem Unsaved.unique {b b' : Bool} (h : Unsaved host f es b) (h' : Unsaved host f es b') : b = b' := by
  cases h with
  | edits he =>
    cases h' with
    | edits => rfl
    | watch hne => exact absurd he hne
    | same hne => exact absurd he hne
  | watch hne hw =>
    cases h' with
    | edits he => exact absurd he hne
    | watch => rfl
    | same _ hnw => exact absurd hw hnw
  | same hne hnw =>
    cases h' with
    | edits he => exact absurd he hne
    | watch _ hw => exact absurd hw hnw
    | same => rfl

/-! ## the flag of a file that stays open -/

theorem edited_eq (h : (es.filter fun c => c.kind = .change).foldlM (changeFile host) f = .ok g) :
    edited host f es = g := by
  rw [edited]
  generalize es.filter (fun c => c.kind = .change) = cs at h ⊢
  induction cs generalizing f with
  | nil =>
    cases h
    rfl
  | cons c cs ih =>
    rw [List.foldlM_cons, bind_eq_ok] at h
    obtain ⟨f1, h1, h2⟩ := h
    rw [List.foldl_cons, editStep, h1]
    exact ih h2

/-- the flag that the last event to ask has set -/
def judgement (f s : FileHandle) (host : OverlayHost E H) : Option FileChange → Bool
  | none => f.matchesDisk
  | some c =>
    if c.kind = .save then true
    else if c.kind = .change then false
    else diskMatch host s

theorem diskMatch_alike (h : Alike f g) : diskMatch host f = diskMatch host g := by
  rw [diskMatch, diskMatch, computeDiskMatch_alike h]

/-- an event that does not ask leaves the file as it is -/
theorem keptStep_silent {s : FileHandle} (hname : s.name = f.name) (hasks : ¬ asks host f c = true) :
    keptStep host s c = s := by
  rw [asks_iff] at hasks
  rw [keptStep]
  cases hkind : c.kind with
  | save => exact absurd (Or.inl hkind) hasks
  | change =>
    show editStep host s c = s
    have hnil : c.changes = [] := by
      by_contra hne
      exact hasks (Or.inr (Or.inl ⟨hkind, hne⟩))
    rw [editStep, changeFile_eq, if_pos hnil]
  | watchChange =>
    show watchStep host s = s
    rw [watchStep]
    cases hmatch : s.computeDiskMatch host with
    | error e => rfl
    | ok m =>
      refine absurd (Or.inr (Or.inr ⟨hkind, ?_⟩)) hasks
      rw [← readable_name hname, readable, hmatch]
      rfl
  | openFile | close | watchCreate | watchDelete => rfl

/-- **The flag under batches of one event.** -/
theorem single_flag (h : (es.filter fun c => c.kind = .change).foldlM (changeFile host) f = .ok g) :
    (es.foldl (keptStep host) f).matchesDisk =
      judgement f (es.foldl (keptStep host) f) host (lastAsk host f es) := by
  induction es using List.reverseRecOn generalizing g with
  | nil => rfl
  | append_singleton es c ih =>
    rw [filter_change_snoc, List.foldlM_append, bind_eq_ok] at h
    obtain ⟨g1, h1, h2⟩ := h
    have hih := ih h1
    have halike := foldl_keptStep_alike es h1
    have hname : (es.foldl (keptStep host) f).name = f.name := foldl_keptStep_name es f
    rw [List.foldl_append, lastAsk_snoc]
    show (keptStep host (es.foldl (keptStep host) f) c).matchesDisk =
      judgement f (keptStep host (es.foldl (keptStep host) f) c) host _
    generalize es.foldl (keptStep host) f = s at hih halike hname
    by_cases hasks : asks host f c = true
    · rw [if_pos hasks, judgement]
      rcases asks_iff.1 hasks with hkind | ⟨hkind, hne⟩ | ⟨hkind, hread⟩
      · rw [if_pos hkind, keptStep, hkind]
        rfl
      · rw [if_neg (by rw [hkind]; decide), if_pos hkind, keptStep_change hkind, editStep]
        rw [if_pos hkind, List.foldlM_cons, bind_eq_ok] at h2
        obtain ⟨g2, h2, -⟩ := h2
        obtain ⟨g', hg', -, hfalse, -⟩ := changeFile_alike halike.symm h2
        rw [hg']
        exact hfalse hne
      · rw [if_neg (by rw [hkind]; decide), if_neg (by rw [hkind]; decide),
          diskMatch_alike (keptStep_alike (by rw [hkind]; decide))]
        rw [← readable_name hname, readable] at hread
        rw [keptStep, hkind]
        show (watchStep host s).matchesDisk = diskMatch host s
        rw [watchStep, diskMatch]
        cases hmatch : s.computeDiskMatch host with
        | ok m => rfl
        | error e =>
          rw [hmatch] at hread
          cases hread
    · rw [if_neg hasks, keptStep_silent hname hasks]
      exact hih

variable {events : Events} {left : FileHandle} {uri : Bytes}

/-- a file that stays open, after one batch -/
theorem batch_file (hf : KeptFlags es events)
    (h : settle host uri events (some f) = .ok (some left)) :
    ∃ g, (es.filter fun c => c.kind = .change).foldlM (changeFile host) f = .ok g ∧ Alike left g ∧
      (SaveStands es → left.matchesDisk = true) ∧
      (¬ SaveStands es → Unsaved host f es left.matchesDisk) := by
  unfold settle at h
  rw [hf.opened, hf.close] at h
  dsimp only at h
  rw [if_neg Bool.false_ne_true, bind_eq_ok] at h
  obtain ⟨f1, h1, h⟩ := h
  rw [hf.changes, bind_eq_ok] at h
  obtain ⟨g1, hg1, h⟩ := h
  cases h
  -- the comparison with the disk comes first, the edits overwrite it
  have hwatch : Alike f1 f ∧ (events.saved = false →
      f1.matchesDisk = if events.watched then diskMatch host f else f.matchesDisk) := by
    rw [watchFile] at h1
    by_cases hw : events.watched = true ∧ ¬ events.saved = true
    · rw [if_pos hw] at h1
      cases hmatch : f.computeDiskMatch host with
      | error e =>
        rw [hmatch] at h1
        cases h1
      | ok m =>
        rw [hmatch] at h1
        cases h1
        refine ⟨alike_withDiskMatch f m.1, ?_⟩
        intro _
        rw [if_pos hw.1, diskMatch, hmatch]
        rfl
    · rw [if_neg hw] at h1
      cases h1
      refine ⟨.refl f, ?_⟩
      intro hsaved
      rw [if_neg (fun hwatched => hw ⟨hwatched, by rw [hsaved]; exact Bool.false_ne_true⟩)]
  obtain ⟨halike, hflag⟩ := hwatch
  obtain ⟨g, hg, halike', -, -⟩ := changes_alike _ halike hg1
  obtain ⟨g1', hg1', -, hfalse, hsame⟩ := changes_alike _ (Alike.refl f1) hg1
  rw [hg1] at hg1'
  cases hg1'
  refine ⟨g, hg, ?_, ?_, ?_⟩
  · rw [saveFile]
    split
    next => exact halike'
    next => exact halike'
  · intro hstands
    rw [saveFile, if_pos (hf.saved.2 hstands)]
    rfl
  · intro hforgets
    have hsaved : ¬ events.saved = true := fun h => hforgets (hf.saved.1 h)
    rw [saveFile, if_neg hsaved]
    have hflag := hflag (Bool.eq_false_iff.2 hsaved)
    by_cases hedits : Edits es
    · rw [hfalse (by
        obtain ⟨c, hc, hkind, hne⟩ := hedits
        exact ⟨c, List.mem_filter.2 ⟨hc, decide_eq_true hkind⟩, hne⟩)]
      exact .edits hedits
    · rw [hsame (by
        intro c hc
        obtain ⟨hmem, hkind⟩ := List.mem_filter.1 hc
        by_contra hne
        exact hedits ⟨c, hmem, of_decide_eq_true hkind, hne⟩), hflag]
      by_cases hw : WatchStands es
      · rw [if_pos (hf.watched.2 hw)]
        exact .watch hedits hw
      · rw [if_neg fun h => hw (hf.watched.1 h)]
        exact .same hedits hw

/-- **The flags of a file that stays open are the same unless it is misjudged.** -/
theorem kept_same_iff (hf : KeptFlags es events)
    (h : settle host uri events (some f) = .ok (some left)) :
    left.matchesDisk = (es.foldl (keptStep host) f).matchesDisk ↔ ¬ Misjudged host f es := by
  obtain ⟨g, hg, -, hstands, hforgets⟩ := batch_file hf h
  rw [single_flag hg]
  have hdisk : diskMatch host (es.foldl (keptStep host) f) = diskMatch host (edited host f es) := by
    rw [diskMatch_alike (foldl_keptStep_alike es hg), edited_eq hg]
  cases hlast : lastAsk host f es with
  | none =>
    have hforget : ¬ SaveStands es := not_saveStands (by
      intro c hc
      rw [hlast] at hc
      cases hc)
    have hedits : ¬ Edits es := by
      intro he
      obtain ⟨c, hc, hkind, hne⟩ := he
      exact lastAsk_none hlast c hc (asks_iff.2 (Or.inr (Or.inl ⟨hkind, hne⟩)))
    rw [judgement]
    constructor
    · intro heq hmis
      cases hmis with
      | recreated _ hw hne =>
        rw [(hforgets hforget).unique (.watch hedits hw)] at heq
        exact hne heq
      | save c hc | watchSaved c hc | watch c hc =>
        rw [hlast] at hc
        cases hc
    · intro hmis
      by_cases hw : WatchStands es
      · rw [(hforgets hforget).unique (.watch hedits hw)]
        by_contra hne
        exact hmis (.recreated hlast hw hne)
      · rw [(hforgets hforget).unique (.same hedits hw)]
  | some c =>
    obtain ⟨hmem, hasks⟩ := lastAsk_asks hlast
    have hlast' : ∀ c', lastAsk host f es = some c' → c' = c := by
      intro c' hc'
      rw [hlast] at hc'
      exact (Option.some.inj hc').symm
    rw [judgement]
    rcases asks_iff.1 hasks with hkind | ⟨hkind, hne⟩ | ⟨hkind, -⟩
    · -- a save
      rw [if_pos hkind]
      constructor
      · intro heq hmis
        cases hmis with
        | save c' _ _ hforget hflag =>
          rw [heq] at hforgets
          cases (hforgets hforget).unique hflag
        | watchSaved c' hc' hkind' | watch c' hc' hkind' =>
          rw [hlast' c' hc', hkind] at hkind'
          cases hkind'
        | recreated hnone =>
          rw [hlast] at hnone
          cases hnone
      · intro hmis
        by_cases hsave : SaveStands es
        · exact hstands hsave
        · by_contra hflag
          refine hmis (.save c hlast hkind hsave ?_)
          rw [← Bool.eq_false_iff.2 hflag]
          exact hforgets hsave
    · -- a change with edits
      have hforget : ¬ SaveStands es := not_saveStands (by
        intro c' hc'
        rw [hlast' c' hc', hkind])
      rw [if_neg (by rw [hkind]; decide), if_pos hkind,
        (hforgets hforget).unique (.edits ⟨c, hmem, hkind, hne⟩)]
      refine ⟨fun _ hmis => ?_, fun _ => rfl⟩
      cases hmis with
      | save c' hc' hkind' | watchSaved c' hc' hkind' | watch c' hc' hkind' =>
        rw [hlast' c' hc', hkind] at hkind'
        cases hkind'
      | recreated hnone =>
        rw [hlast] at hnone
        cases hnone
    · -- a change on disk
      rw [if_neg (by rw [hkind]; decide), if_neg (by rw [hkind]; decide), hdisk]
      constructor
      · intro heq hmis
        cases hmis with
        | save c' hc' hkind' =>
          rw [hlast' c' hc', hkind] at hkind'
          cases hkind'
        | watchSaved c' _ _ hsave hflag =>
          rw [hstands hsave, hflag] at heq
          cases heq
        | watch c' _ _ hforget hflag =>
          have hunique := (hforgets hforget).unique hflag
          rw [heq] at hunique
          cases hd : diskMatch host (edited host f es) <;> rw [hd] at hunique <;> cases hunique
        | recreated hnone =>
          rw [hlast] at hnone
          cases hnone
      · intro hmis
        by_contra hne
        by_cases hsave : SaveStands es
        · rw [hstands hsave] at hne
          refine hmis (.watchSaved c hlast hkind hsave ?_)
          cases hd : diskMatch host (edited host f es) with
          | false => rfl
          | true => exact absurd hd.symm hne
        · refine hmis (.watch c hlast hkind hsave ?_)
          rw [← Bool.eq_not_of_ne hne]
          exact hforgets hsave

end

/-! ## the comparison -/

/-- what is compared of an overlay -/
def FileHandle.state (file : FileHandle) : Bytes × Int32 × ScriptKind × Bool :=
  (file.content, file.version, file.kind, file.matchesDisk)

/-- the same files are open, in the same state -/
def SameOverlays (a b : Overlays) : Prop :=
  ∀ p : Bytes, a[p]?.map FileHandle.state = b[p]?.map FileHandle.state

section
variable {host} {es : List FileChange} {events : Events}

/-- how a file is opened and closed by the events of a batch -/
theorem flags_opened (es : List FileChange) {events : Events} (h : flags (E := E) es = .ok events) :
    (∀ c, events.opened = some c → ∃ front, es = front ++ [c] ∧ c.kind = .openFile) ∧
      (events.opened = none → (∀ c ∈ es, c.kind ≠ .openFile) ∧
        (events.close = true ↔ ∃ c ∈ es, c.kind = .close)) := by
  induction es using List.reverseRecOn generalizing events with
  | nil =>
    cases h
    refine ⟨?_, ?_⟩
    · intro c hc
      cases hc
    · intro _
      simp [Events.empty]
  | append_singleton es c ih =>
    obtain ⟨before, hbefore, hadd⟩ := flags_of_snoc h
    obtain ⟨-, hclosed⟩ := ih hbefore
    rw [Events.add] at hadd
    by_cases hopen : before.opened.isSome = true
    · rw [if_pos hopen] at hadd
      cases hadd
    rw [if_neg hopen] at hadd
    have hnone : before.opened = none := by
      cases ho : before.opened with
      | none => rfl
      | some c' =>
        rw [ho] at hopen
        exact absurd rfl hopen
    obtain ⟨hnoopen, hclose⟩ := hclosed hnone
    by_cases hkind : c.kind = .openFile
    · rw [hkind] at hadd
      cases hadd
      refine ⟨?_, ?_⟩
      · intro c' hc'
        cases hc'
        exact ⟨es, rfl, hkind⟩
      · intro h
        cases h
    · have hevents : events.opened = none ∧
          (events.close = true ↔ before.close = true ∨ c.kind = .close) := by
        cases hk : c.kind with
        | openFile => exact absurd hk hkind
        | close =>
          rw [hk] at hadd
          cases hadd
          exact ⟨hnone, by simp⟩
        | change =>
          rw [hk] at hadd
          dsimp only at hadd
          split at hadd
          next => cases hadd
          next =>
            cases hadd
            exact ⟨hnone, by simp⟩
        | save =>
          rw [hk] at hadd
          cases hadd
          exact ⟨hnone, by simp⟩
        | watchCreate | watchChange | watchDelete =>
          rw [hk] at hadd
          dsimp only at hadd
          split at hadd
          next =>
            cases hadd
            exact ⟨hnone, by simp⟩
          next =>
            cases hadd
            exact ⟨hnone, by simp⟩
      refine ⟨?_, ?_⟩
      · intro c' hc'
        rw [hevents.1] at hc'
        cases hc'
      · intro _
        refine ⟨?_, ?_⟩
        · intro c' hc'
          rcases List.mem_append.1 hc' with hc' | hc'
          · exact hnoopen c' hc'
          · rw [List.mem_singleton.1 hc']
            exact hkind
        · rw [hevents.2, hclose]
          simp [or_and_right, exists_or]

theorem foldl_singly_none (h : ∀ c ∈ es, c.kind ≠ .openFile) :
    es.foldl (fun o c => singly host c o) none = none := by
  induction es with
  | nil => rfl
  | cons c es ih =>
    have hnone : singly host c none = none := by
      rw [singly]
      cases hkind : c.kind with
      | openFile => exact absurd hkind (h c List.mem_cons_self)
      | close | change | save | watchCreate | watchChange | watchDelete => rfl
    rw [List.foldl_cons, hnone]
    exact ih fun c' hc' => h c' (List.mem_cons_of_mem _ hc')

theorem foldl_singly_closed (h : ∀ c ∈ es, c.kind ≠ .openFile) (hclose : ∃ c ∈ es, c.kind = .close)
    (o : Option FileHandle) : es.foldl (fun o c => singly host c o) o = none := by
  obtain ⟨c, hc, hkind⟩ := hclose
  obtain ⟨front, back, rfl⟩ := List.append_of_mem hc
  rw [List.foldl_append, List.foldl_cons, singly, hkind]
  exact foldl_singly_none fun c' hc' => h c' (List.mem_append_right _ (List.mem_cons_of_mem _ hc'))

theorem foldl_singly_kept (h : Kept es) (f : FileHandle) :
    es.foldl (fun o c => singly host c o) (some f) = some (es.foldl (keptStep host) f) := by
  induction es generalizing f with
  | nil => rfl
  | cons c es ih =>
    have hsome : singly host c (some f) = some (keptStep host f c) := by
      obtain ⟨hopen, hclose⟩ := h c List.mem_cons_self
      rw [singly]
      cases hkind : c.kind with
      | openFile => exact absurd hkind hopen
      | close => exact absurd hkind hclose
      | change | save | watchCreate | watchChange | watchDelete => rfl
    rw [List.foldl_cons, hsome]
    exact ih (fun c' hc' => h c' (List.mem_cons_of_mem _ hc')) _

/-- **One file of a batch.** -/
theorem file_same_iff {uri : Bytes} {o left : Option FileHandle} (hes : ∀ c ∈ es, c.uri = uri)
    (hflags : flags (E := E) es = .ok events) (h : settle host uri events o = .ok left) :
    left.map FileHandle.state = (es.foldl (fun o c => singly host c o) o).map FileHandle.state ↔
      ∀ f, o = some f → Kept es → ¬ Misjudged host f es := by
  obtain ⟨hopened, hclosed⟩ := flags_opened es hflags
  cases ho : events.opened with
  | some c =>
    -- opened by the last event
    obtain ⟨front, rfl, hkind⟩ := hopened c ho
    have huri := hes c (List.mem_append_right _ List.mem_cons_self)
    unfold settle at h
    rw [ho] at h
    cases h
    rw [List.foldl_append, List.foldl_cons, List.foldl_nil, singly, hkind, huri]
    refine ⟨?_, fun _ => rfl⟩
    intro _ f _ hkept
    exact absurd hkind (hkept c (List.mem_append_right _ List.mem_cons_self)).1
  | none =>
    obtain ⟨hnoopen, hclose⟩ := hclosed ho
    by_cases hc : events.close = true
    · have hexists := hclose.1 hc
      unfold settle at h
      rw [ho] at h
      dsimp only at h
      rw [if_pos hc] at h
      cases h
      rw [foldl_singly_closed hnoopen hexists]
      refine ⟨?_, fun _ => rfl⟩
      intro _ f _ hkept
      obtain ⟨c, hmem, hkind⟩ := hexists
      exact absurd hkind (hkept c hmem).2
    · have hkept : Kept es := by
        intro c hmem
        exact ⟨hnoopen c hmem, fun hkind => hc (hclose.2 ⟨c, hmem, hkind⟩)⟩
      have hf := flags_kept es hkept hflags
      cases o with
      | none =>
        have hleft : left = none := by
          unfold settle at h
          rw [ho] at h
          dsimp only at h
          rw [if_neg hc] at h
          cases h
          rfl
        rw [hleft, foldl_singly_none hnoopen]
        refine ⟨?_, fun _ => rfl⟩
        intro _ f hnone
        cases hnone
      | some f =>
        obtain ⟨file, rfl⟩ : ∃ file, left = some file := by
          unfold settle at h
          rw [ho] at h
          dsimp only at h
          rw [if_neg hc, bind_eq_ok] at h
          obtain ⟨f1, -, h⟩ := h
          rw [bind_eq_ok] at h
          obtain ⟨f2, -, h⟩ := h
          cases h
          exact ⟨_, rfl⟩
        obtain ⟨g, hg, halike, -, -⟩ := batch_file hf h
        have hsame := halike.trans (foldl_keptStep_alike es hg).symm
        have hiff := kept_same_iff hf h
        rw [foldl_singly_kept hkept, Option.map_some, Option.map_some, Option.some.injEq]
        have hstate : file.state = (es.foldl (keptStep host) f).state ↔
            file.matchesDisk = (es.foldl (keptStep host) f).matchesDisk := by
          rw [hsame.eq]
          constructor
          · intro heq
            exact congrArg (fun s => s.2.2.2) heq
          · intro heq
            rw [FileHandle.state, FileHandle.state, heq]
            rfl
        rw [hstate, hiff]
        constructor
        · intro hmis f' hf' _
          cases hf'
          exact hmis
        · intro hall
          exact hall f rfl hkept

end

/-- **One batch and batches of one event leave the same overlays if and only if no file that stays open
is misjudged.** -/
theorem batch_same_iff (host : OverlayHost E H) (overlays after : Overlays) (changes : List FileChange)
    (summary : FileChangeSummary) (h : processChanges host overlays changes = .ok (after, summary))
    (hpaths : ∀ c ∈ changes, ∀ c' ∈ changes, host.path c.uri = host.path c'.uri → c.uri = c'.uri) :
    SameOverlays after (oneByOne host overlays changes) ↔
      ∀ c ∈ changes, ∀ f, overlays[host.path c.uri]? = some f → Kept (about c.uri changes) →
        ¬ Misjudged host f (about c.uri changes) := by
  have hfile : ∀ c ∈ changes,
      (after[host.path c.uri]?.map FileHandle.state =
        (oneByOne host overlays changes)[host.path c.uri]?.map FileHandle.state ↔
      ∀ f, overlays[host.path c.uri]? = some f → Kept (about c.uri changes) →
        ¬ Misjudged host f (about c.uri changes)) := by
    intro c hc
    have hothers : ∀ c' ∈ changes, c'.uri ≠ c.uri → host.path c'.uri ≠ host.path c.uri := by
      intro c' hc' hne heq
      exact hne (hpaths c' hc' c hc heq)
    obtain ⟨events, hflags, hsettle⟩ := processChanges_settle h hothers
    rw [oneByOne_file host changes overlays hothers]
    refine file_same_iff ?_ hflags hsettle
    intro c' hc'
    exact of_decide_eq_true (List.mem_filter.1 hc').2
  constructor
  · intro hsame c hc
    exact (hfile c hc).1 (hsame _)
  · intro hall p
    by_cases hp : ∃ c ∈ changes, host.path c.uri = p
    · obtain ⟨c, hc, rfl⟩ := hp
      exact (hfile c hc).2 (hall c hc)
    · have hnone : ∀ c ∈ changes, host.path c.uri ≠ p := fun c hc heq => hp ⟨c, hc, heq⟩
      rw [processChanges_elsewhere h hnone, oneByOne_elsewhere host changes overlays hnone]

/-- `b` is on disk, and `a` is open -/
def savedHost : OverlayHost Unit Bytes := ⟨id, id, fun _ => .ok (some (bytesOf "b")), id, .utf16⟩

def openFiles : Overlays := (∅ : Overlays).insert (bytesOf "/a.ts") (.overlay (bytesOf "/a.ts") (bytesOf "a") 1 .ts)

/-- the text becomes that on disk -/
def retyped : FileChange :=
  { FileChange.new .change (bytesOf "/a.ts") with
    version := 2, changes := [⟨none, some (bytesOf "b")⟩] }

theorem batch_same_iff_retyped :
    ∃ after summary,
      processChanges savedHost openFiles [retyped, .new .save (bytesOf "/a.ts")] = .ok (after, summary) ∧
      (SameOverlays after (oneByOne savedHost openFiles [retyped, .new .save (bytesOf "/a.ts")]) ↔
        ∀ c ∈ [retyped, .new .save (bytesOf "/a.ts")], ∀ f, openFiles[savedHost.path c.uri]? = some f →
          Kept (about c.uri [retyped, .new .save (bytesOf "/a.ts")]) →
            ¬ Misjudged savedHost f (about c.uri [retyped, .new .save (bytesOf "/a.ts")])) := by
  cases h : processChanges savedHost openFiles [retyped, .new .save (bytesOf "/a.ts")] with
  | error e =>
    have hok : (processChanges savedHost openFiles [retyped, .new .save (bytesOf "/a.ts")]).toBool =
        true := by decide +kernel
    rw [h] at hok
    cases hok
  | ok r =>
    exact ⟨r.1, r.2, rfl, batch_same_iff savedHost openFiles r.1 _ r.2 h fun _ _ _ _ heq => heq⟩

/-- The batch compares the text in front of the edits with the disk; the edits then forget the answer. -/
theorem processChanges_change_watchChange :
    ∃ after summary,
      processChanges savedHost openFiles [retyped, .new .watchChange (bytesOf "/a.ts")] =
        .ok (after, summary) ∧
      after[bytesOf "/a.ts"]?.map FileHandle.matchesDisk = some false ∧
      (oneByOne savedHost openFiles [retyped, .new .watchChange (bytesOf "/a.ts")])[bytesOf "/a.ts"]?.map
        FileHandle.matchesDisk = some true ∧
      ¬ SameOverlays after (oneByOne savedHost openFiles [retyped, .new .watchChange (bytesOf "/a.ts")]) := by
  have hbatch : (processChanges savedHost openFiles [retyped, .new .watchChange (bytesOf "/a.ts")]).toOption.map
      (fun r => r.1[bytesOf "/a.ts"]?.map FileHandle.matchesDisk) = some (some false) := by decide +kernel
  have hone : (oneByOne savedHost openFiles
      [retyped, .new .watchChange (bytesOf "/a.ts")])[bytesOf "/a.ts"]?.map FileHandle.matchesDisk =
        some true := by decide +kernel
  cases h : processChanges savedHost openFiles [retyped, .new .watchChange (bytesOf "/a.ts")] with
  | error e =>
    rw [h] at hbatch
    cases hbatch
  | ok r =>
    rw [h] at hbatch
    have hafter : r.1[bytesOf "/a.ts"]?.map FileHandle.matchesDisk = some false := Option.some.inj hbatch
    refine ⟨r.1, r.2, rfl, hafter, hone, ?_⟩
    intro hsame
    have heq := congrArg (Option.map fun s : Bytes × Int32 × ScriptKind × Bool => s.2.2.2)
      (hsame (bytesOf "/a.ts"))
    rw [Option.map_map, Option.map_map] at heq
    have hflags : r.1[bytesOf "/a.ts"]?.map FileHandle.matchesDisk =
        (oneByOne savedHost openFiles
          [retyped, .new .watchChange (bytesOf "/a.ts")])[bytesOf "/a.ts"]?.map FileHandle.matchesDisk := heq
    rw [hafter, hone] at hflags
    cases hflags

end Tsr.Project
