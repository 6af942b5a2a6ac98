import Mathlib

/-!
# Pending events of a directory watch

An `EventList` keeps three sequence numbers for each path that had an event since the last drain:
of its last create, update and remove.  A drain reads off them one event for each subscriber, who
knows the sequence number at which it started.

* `State.record`, `State.create`, `State.update`, `State.remove`   what the backends call;
* `Entry.kindSince`, `State.drainForSequences`                     what a subscriber sees;
* `Correct`                                                        what it should see, for a path
  that was there or not when the subscriber started, and is there or not at the end.

`correct_iff` says when it does: the list takes a create behind the start of a subscriber for the
first one of the file, also when the create replaced a file that was there, and a remove then
cancels the two.
-/

namespace Tsr.Fswatch

abbrev Path := List UInt8

inductive EventKind where
  | update
  | delete
deriving DecidableEq

structure Event where
  kind : EventKind
  path : Path
deriving DecidableEq

structure PendingEvent where
  event : Event
  includedWatchRoot : Bool
deriving DecidableEq

/-- the sequence numbers of the last events of a path; zero where there was none -/
structure Entry where
  created : UInt64
  updated : UInt64
  deleted : UInt64
  includedWatchRoot : Bool
deriving DecidableEq

def Entry.default : Entry := ⟨0, 0, 0, false⟩

def Entry.kindSince (e : Entry) (start : UInt64) : Option EventKind :=
  if start < e.deleted then
    if start < e.created ∧ e.created < e.deleted ∧ e.updated < e.deleted then none
    else some .delete
  else if start < max e.created e.updated then some .update
  else none

inductive Operation where
  | create
  | update
  | remove
deriving DecidableEq

/-- a create behind a remove counts as an update -/
def Entry.record (e : Entry) (sequence : UInt64) : Operation → Entry
  | .create =>
    if e.created < e.deleted ∧ e.updated < e.deleted then
      { e with deleted := 0, created := 0, updated := sequence }
    else { e with created := sequence }
  | .update => { e with updated := sequence }
  | .remove => { e with deleted := sequence }

structure State (E : Type) where
  entries : Std.ExtTreeMap Path Entry
  error : Option E
  sequence : UInt64

namespace State

variable {E : Type}

def default : State E := ⟨∅, none, 0⟩

/-- the sequence number wraps around when the list counts it itself -/
def record (s : State E) (path : Path) (sequence : Option UInt64) (operation : Operation)
    (root : Bool) : State E :=
  let total := match sequence with
    | some sequence => max s.sequence sequence
    | none => s.sequence + 1
  let sequence := sequence.getD (s.sequence + 1)
  let entry := ((s.entries[path]?).getD .default).record sequence operation
  { s with
    entries := s.entries.insert path
      { entry with includedWatchRoot := entry.includedWatchRoot || root }
    sequence := total }

def create (s : State E) (path : Path) : State E := s.record path none .create false
def update (s : State E) (path : Path) : State E := s.record path none .update false
def remove (s : State E) (path : Path) : State E := s.record path none .remove false

def hasPending (s : State E) : Bool := !s.entries.isEmpty || s.error.isSome

/-- the first error is kept -/
def setError (s : State E) (error : E) : State E := { s with error := s.error.or (some error) }

/-- the events for one subscriber -/
def pendingSince (s : State E) (start : UInt64) : List PendingEvent :=
  s.entries.toList.filterMap fun (path, entry) =>
    (entry.kindSince start).map fun kind => ⟨⟨kind, path⟩, entry.includedWatchRoot⟩

def drainForSequences (s : State E) (starts : List UInt64) :
    (List (List PendingEvent) × Option E) × State E :=
  ((starts.map s.pendingSince, s.error), { s with entries := ∅, error := none })

end State

/-! ## What a history does to a path -/

/-- `create` is also what a rename onto the path is reported as -/
def State.apply {E : Type} (s : State E) (event : Operation × Path) : State E :=
  match event.1 with
  | .create => s.create event.2
  | .update => s.update event.2
  | .remove => s.remove event.2

def run {E : Type} (history : List (Operation × Path)) (s : State E) : State E :=
  history.foldl State.apply s

section
variable (path : Path)

/-- whether the path is there after an event -/
def track (present : Bool) (event : Operation × Path) : Bool :=
  if event.2 = path then event.1 != .remove else present

/-- the path is there when it is updated or removed -/
def Possible : Bool → List (Operation × Path) → Prop
  | _, [] => True
  | present, event :: history =>
    (event.2 = path → event.1 ≠ .create → present = true) ∧
      Possible (track path present event) history

instance : (present : Bool) → (history : List (Operation × Path)) →
    Decidable (Possible path present history)
  | _, [] => .isTrue trivial
  | present, event :: history =>
    have := instDecidablePossible (track path present event) history
    inferInstanceAs (Decidable (_ ∧ _))

/-- whether the path is there, and whether its last create found it there -/
def trackReplaced (st : Bool × Bool) (event : Operation × Path) : Bool × Bool :=
  (track path st.1 event, if event.2 = path ∧ event.1 = .create then st.1 else st.2)

def present (atStart : Bool) (history : List (Operation × Path)) : Bool :=
  history.foldl (track path) atStart

/-- the last create of the path in the history found the path there -/
def replaced (atStart : Bool) (history : List (Operation × Path)) : Bool :=
  (history.foldl (trackReplaced path) (atStart, false)).2

def hadEvent (history : List (Operation × Path)) : Bool := history.any fun event => event.2 == path

/-- the event for the path among those of one subscriber -/
def resultFor (events : List PendingEvent) : Option EventKind :=
  (events.find? fun pending => pending.event.path == path).map (·.event.kind)

end

/-- what a subscriber should see of a path, by whether it was there at its start, is there at the
end, and had an event in between -/
structure Correct (atStart atEnd had : Bool) (result : Option EventKind) : Prop where
  delete : atStart = true → atEnd = false → result = some .delete
  update : atEnd = true → had = true → result = some .update
  none : result = none → atStart = false ∧ atEnd = false ∨ had = false

/-! ## What the sequence numbers say -/

/-- the sequence numbers of a path -/
def State.entry {E : Type} (s : State E) (path : Path) : Entry := (s.entries[path]?).getD .default

def State.created {E : Type} (s : State E) (path : Path) : Nat := (s.entry path).created.toNat
def State.updated {E : Type} (s : State E) (path : Path) : Nat := (s.entry path).updated.toNat
def State.deleted {E : Type} (s : State E) (path : Path) : Nat := (s.entry path).deleted.toNat

section
variable {E : Type} {path : Path}

theorem sequence_apply (s : State E) (event : Operation × Path)
    (h : s.sequence.toNat + 1 < 2 ^ 64) :
    (s.apply event).sequence.toNat = s.sequence.toNat + 1 := by
  have hseq : (s.apply event).sequence = s.sequence + 1 := by
    obtain ⟨op, q⟩ := event
    cases op <;> rfl
  rw [hseq, UInt64.toNat_add]
  exact Nat.mod_eq_of_lt h

theorem entry_apply_self (s : State E) (op : Operation) :
    let e := (s.entry path).record (s.sequence + 1) op
    let e' := (s.apply (op, path)).entry path
    e'.created = e.created ∧ e'.updated = e.updated ∧ e'.deleted = e.deleted := by
  cases op <;>
    simp [State.apply, State.create, State.update, State.remove, State.record, State.entry]

theorem entry_apply_ne (s : State E) (event : Operation × Path) (h : event.2 ≠ path) :
    (s.apply event).entry path = s.entry path := by
  obtain ⟨op, q⟩ := event
  cases op <;>
    simp [State.apply, State.create, State.update, State.remove, State.record, State.entry,
      Std.ExtTreeMap.getElem?_insert, show q ≠ path from h]

/-- what an event does to the sequence numbers of a path -/
theorem numbers_apply (s : State E) (event : Operation × Path) (h : s.sequence.toNat + 1 < 2 ^ 64) :
    let s' := s.apply event
    let n := s.sequence.toNat + 1
    (event.2 ≠ path ∧ s'.created path = s.created path ∧ s'.updated path = s.updated path ∧
      s'.deleted path = s.deleted path) ∨
    (event = (.create, path) ∧ s.created path < s.deleted path ∧ s.updated path < s.deleted path ∧
      s'.created path = 0 ∧ s'.updated path = n ∧ s'.deleted path = 0) ∨
    (event = (.create, path) ∧ (s.created path < s.deleted path → s.deleted path ≤ s.updated path) ∧
      s'.created path = n ∧ s'.updated path = s.updated path ∧ s'.deleted path = s.deleted path) ∨
    (event = (.update, path) ∧ s'.created path = s.created path ∧ s'.updated path = n ∧
      s'.deleted path = s.deleted path) ∨
    (event = (.remove, path) ∧ s'.created path = s.created path ∧
      s'.updated path = s.updated path ∧ s'.deleted path = n) := by
  intro s' n
  have hnext : (s.sequence + 1).toNat = n := by
    rw [UInt64.toNat_add]
    exact Nat.mod_eq_of_lt h
  obtain ⟨op, q⟩ := event
  by_cases hq : q = path
  · subst hq
    right
    obtain ⟨e1, e2, e3⟩ := @entry_apply_self E q s op
    have c1 := congrArg UInt64.toNat e1
    have c2 := congrArg UInt64.toNat e2
    have c3 := congrArg UInt64.toNat e3
    cases op with
    | create =>
      by_cases hreset : (s.entry q).created < (s.entry q).deleted ∧
          (s.entry q).updated < (s.entry q).deleted
      · simp only [Entry.record, if_pos hreset] at c1 c2 c3
        exact Or.inl ⟨rfl, UInt64.lt_iff_toNat_lt.1 hreset.1, UInt64.lt_iff_toNat_lt.1 hreset.2, c1,
          c2.trans hnext, c3⟩
      · simp only [Entry.record, if_neg hreset] at c1 c2 c3
        refine Or.inr (Or.inl ⟨rfl, fun hlt => ?_, c1.trans hnext, c2, c3⟩)
        refine Nat.le_of_not_lt fun hlt' => hreset ?_
        exact ⟨UInt64.lt_iff_toNat_lt.2 hlt, UInt64.lt_iff_toNat_lt.2 hlt'⟩
    | update => exact Or.inr (Or.inr (Or.inl ⟨rfl, c1, c2.trans hnext, c3⟩))
    | remove => exact Or.inr (Or.inr (Or.inr ⟨rfl, c1, c2, c3.trans hnext⟩))
  · have he := entry_apply_ne s (op, q) hq
    left
    exact ⟨hq, congrArg (fun e => e.created.toNat) he, congrArg (fun e => e.updated.toNat) he,
      congrArg (fun e => e.deleted.toNat) he⟩

/-- a path that is there has no remove, and one that is not there has it last, or no event at all -/
structure Tracks (s : State E) (path : Path) (there : Bool) : Prop where
  created : s.created path ≤ s.sequence.toNat
  updated : s.updated path ≤ s.sequence.toNat
  deleted : s.deleted path ≤ s.sequence.toNat
  here : there = true → s.deleted path = 0
  gone : there = false → (s.created path < s.deleted path ∧ s.updated path < s.deleted path) ∨
    (s.created path = 0 ∧ s.updated path = 0 ∧ s.deleted path = 0)

theorem tracks_apply (s : State E) (there : Bool) (event : Operation × Path)
    (h : s.sequence.toNat + 1 < 2 ^ 64) (ht : Tracks s path there)
    (hpos : event.2 = path → event.1 ≠ .create → there = true) :
    Tracks (s.apply event) path (track path there event) := by
  have hseq := sequence_apply s event h
  obtain ⟨h1, h2, h3, h4, h5⟩ := ht
  rcases @numbers_apply E path s event h with ⟨hne, c, u, d⟩ | ⟨rfl, hlt, hlt', c, u, d⟩ |
    ⟨rfl, hkeep, c, u, d⟩ | ⟨rfl, c, u, d⟩ | ⟨rfl, c, u, d⟩
  · have htr : track path there event = there := if_neg hne
    rw [htr]
    exact ⟨by omega, by omega, by omega, by rwa [d], by rwa [c, u, d]⟩
  · have htr : track path there (.create, path) = true := if_pos rfl
    rw [htr]
    exact ⟨by omega, by omega, by omega, fun _ => d, nofun⟩
  · have htr : track path there (.create, path) = true := if_pos rfl
    rw [htr]
    refine ⟨by omega, by omega, by omega, fun _ => ?_, nofun⟩
    -- a path that is not there is reset, unless it had no event
    cases there with
    | true => exact d.trans (h4 rfl)
    | false =>
      rcases h5 rfl with ⟨hlt, hlt'⟩ | ⟨-, -, hzero⟩
      · have := hkeep hlt
        omega
      · exact d.trans hzero
  · have htr : track path there (.update, path) = true := if_pos rfl
    rw [htr]
    exact ⟨by omega, by omega, by omega, fun _ => d.trans (h4 (hpos rfl nofun)), nofun⟩
  · have htr : track path there (.remove, path) = false := if_pos rfl
    rw [htr]
    exact ⟨by omega, by omega, by omega, nofun, fun _ => Or.inl ⟨by omega, by omega⟩⟩

/-- what the sequence numbers say to a subscriber that started at `start` -/
structure Since (s : State E) (path : Path) (start : Nat) (atStart there rep had : Bool) : Prop where
  le : start ≤ s.sequence.toNat
  recent : had = true → there = true → start < max (s.created path) (s.updated path)
  removed : had = true → there = false → start < s.deleted path
  quiet : had = false → s.created path ≤ start ∧ s.updated path ≤ start ∧ s.deleted path ≤ start ∧
    there = atStart
  replaced : atStart = true → (start < s.created path ↔ rep = true)

theorem since_apply (s : State E) (start : Nat) (atStart there rep had : Bool)
    (event : Operation × Path) (h : s.sequence.toNat + 1 < 2 ^ 64) (ht : Tracks s path there)
    (hs : Since s path start atStart there rep had)
    (hpos : event.2 = path → event.1 ≠ .create → there = true) :
    Since (s.apply event) path start atStart (track path there event)
      (trackReplaced path (there, rep) event).2 (had || event.2 == path) := by
  have hseq := sequence_apply s event h
  obtain ⟨hle, hrecent, hremoved, hquiet, hrep⟩ := hs
  rcases @numbers_apply E path s event h with ⟨hne, c, u, d⟩ | ⟨rfl, hlt, hlt', c, u, d⟩ |
    ⟨rfl, hkeep, c, u, d⟩ | ⟨rfl, c, u, d⟩ | ⟨rfl, c, u, d⟩
  · have htr : track path there event = there := if_neg hne
    have hrp : (trackReplaced path (there, rep) event).2 = rep := if_neg fun hc => hne hc.1
    have hhad : (had || event.2 == path) = had := by
      rw [beq_false_of_ne hne, Bool.or_false]
    rw [htr, hrp, hhad]
    exact ⟨by omega, by rwa [c, u], by rwa [d], by rwa [c, u, d], by rwa [c]⟩
  · have hhad : (had || (Operation.create, path).2 == path) = true := by simp
    have htr : track path there (.create, path) = true := if_pos rfl
    have hrp : (trackReplaced path (there, rep) (.create, path)).2 = there := if_pos ⟨rfl, rfl⟩
    have hgone : there = false := by
      cases there with
      | true =>
        have := ht.here rfl
        omega
      | false => rfl
    rw [htr, hrp, hhad, hgone]
    exact ⟨by omega, fun _ _ => by omega, nofun, nofun, fun _ => ⟨fun hc => by omega, nofun⟩⟩
  · have hhad : (had || (Operation.create, path).2 == path) = true := by simp
    have htr : track path there (.create, path) = true := if_pos rfl
    have hrp : (trackReplaced path (there, rep) (.create, path)).2 = there := if_pos ⟨rfl, rfl⟩
    rw [htr, hrp, hhad]
    refine ⟨by omega, fun _ _ => by omega, nofun, nofun, fun hat => ⟨fun _ => ?_, fun _ => by omega⟩⟩
    -- the path was there at the start and is not there: it was removed since, and is reset
    cases there with
    | true => rfl
    | false =>
      have hhad' : had = true := by
        cases had with
        | true => rfl
        | false => exact absurd ((hquiet rfl).2.2.2.trans hat) nofun
      have hdel := hremoved hhad' rfl
      rcases ht.gone rfl with ⟨hlt, hlt'⟩ | ⟨-, -, hzero⟩
      · have := hkeep hlt
        omega
      · omega
  · have hhad : (had || (Operation.update, path).2 == path) = true := by simp
    have htr : track path there (.update, path) = true := if_pos rfl
    have hrp : (trackReplaced path (there, rep) (.update, path)).2 = rep := if_neg fun hc => nomatch hc.2
    rw [htr, hrp, hhad]
    exact ⟨by omega, fun _ _ => by omega, nofun, nofun, by rwa [c]⟩
  · have hhad : (had || (Operation.remove, path).2 == path) = true := by simp
    have htr : track path there (.remove, path) = false := if_pos rfl
    have hrp : (trackReplaced path (there, rep) (.remove, path)).2 = rep := if_neg fun hc => nomatch hc.2
    rw [htr, hrp, hhad]
    exact ⟨by omega, nofun, fun _ _ => by omega, nofun, by rwa [c]⟩

/-! ## Histories -/

theorem run_cons (event : Operation × Path) (history : List (Operation × Path)) (s : State E) :
    run (event :: history) s = run history (s.apply event) := rfl

theorem sequence_run (history : List (Operation × Path)) (s : State E)
    (h : s.sequence.toNat + history.length < 2 ^ 64) :
    (run history s).sequence.toNat = s.sequence.toNat + history.length := by
  induction history generalizing s with
  | nil => rfl
  | cons event history ih =>
    rw [List.length_cons] at h ⊢
    have hseq := sequence_apply s event (by omega)
    rw [run_cons, ih _ (by omega), hseq]
    omega

theorem possible_append (there : Bool) (before after : List (Operation × Path)) :
    Possible path there (before ++ after) ↔
      Possible path there before ∧ Possible path (present path there before) after := by
  induction before generalizing there with
  | nil => exact ⟨fun h => ⟨trivial, h⟩, fun h => h.2⟩
  | cons event before ih =>
    show _ ∧ Possible path (track path there event) (before ++ after) ↔
      (_ ∧ Possible path (track path there event) before) ∧ _
    rw [ih, and_assoc]
    rfl

theorem tracks_run (history : List (Operation × Path)) (s : State E) (there : Bool)
    (h : s.sequence.toNat + history.length < 2 ^ 64) (hp : Possible path there history)
    (ht : Tracks s path there) : Tracks (run history s) path (present path there history) := by
  induction history generalizing s there with
  | nil => exact ht
  | cons event history ih =>
    rw [List.length_cons] at h
    have hseq := sequence_apply s event (by omega)
    exact ih (s.apply event) (track path there event) (by omega) hp.2
      (tracks_apply s there event (by omega) ht hp.1)

theorem since_run (history : List (Operation × Path)) (s : State E) (start : Nat)
    (atStart there rep had : Bool) (h : s.sequence.toNat + history.length < 2 ^ 64)
    (hp : Possible path there history) (ht : Tracks s path there)
    (hs : Since s path start atStart there rep had) :
    Since (run history s) path start atStart (present path there history)
      (history.foldl (trackReplaced path) (there, rep)).2 (had || hadEvent path history) := by
  induction history generalizing s there rep had with
  | nil =>
    rw [show hadEvent path [] = false from rfl, Bool.or_false]
    exact hs
  | cons event history ih =>
    rw [List.length_cons] at h
    have hseq := sequence_apply s event (by omega)
    have hnext := ih (s.apply event) (track path there event)
      (trackReplaced path (there, rep) event).2 (had || event.2 == path) (by omega) hp.2
      (tracks_apply s there event (by omega) ht hp.1)
      (since_apply s start atStart there rep had event (by omega) ht hs hp.1)
    rw [Bool.or_assoc] at hnext
    exact hnext

/-- a path without an entry: nothing was reported since the list was made or drained -/
theorem tracks_fresh (s : State E) (there : Bool) (h : s.entries[path]? = none) :
    Tracks s path there := by
  have he : s.entry path = .default := by
    unfold State.entry
    rw [h]
    rfl
  have hc : s.created path = 0 := by rw [State.created, he]; rfl
  have hu : s.updated path = 0 := by rw [State.updated, he]; rfl
  have hd : s.deleted path = 0 := by rw [State.deleted, he]; rfl
  exact ⟨by omega, by omega, by omega, fun _ => hd, fun _ => Or.inr ⟨hc, hu, hd⟩⟩

theorem since_start (s : State E) (there : Bool) (ht : Tracks s path there) :
    Since s path s.sequence.toNat there there false false :=
  ⟨le_rfl, nofun, nofun, fun _ => ⟨ht.created, ht.updated, ht.deleted, rfl⟩,
    fun _ => ⟨fun hc => absurd ht.created (Nat.not_le_of_lt hc), nofun⟩⟩

/-! ## Drains -/

/-- the result for a path is read off its own entry -/
theorem resultFor_pendingSince (s : State E) (start : UInt64) :
    resultFor path (s.pendingSince start) = (s.entry path).kindSince start := by
  have hmem : ∀ pending ∈ s.pendingSince start, pending.event.path = path →
      (s.entry path).kindSince start = some pending.event.kind := by
    intro pending hp hpath
    obtain ⟨⟨q, e⟩, he, hk⟩ := List.mem_filterMap.1 hp
    obtain ⟨kind, hkind, rfl⟩ := Option.map_eq_some_iff.1 hk
    rw [Std.ExtTreeMap.mem_toList_iff_getElem?_eq_some] at he
    have hq : q = path := hpath
    subst hq
    unfold State.entry
    rw [he]
    exact hkind
  unfold resultFor
  cases hfind : (s.pendingSince start).find? fun pending => pending.event.path == path with
  | some pending =>
    have hpath : pending.event.path = path := by simpa using List.find?_some hfind
    exact (hmem pending (List.mem_of_find?_eq_some hfind) hpath).symm
  | none =>
    cases hkind : (s.entry path).kindSince start with
    | none => rfl
    | some kind =>
      -- an entry that shows an event is in the map
      unfold State.entry at hkind
      cases he : s.entries[path]? with
      | none =>
        rw [he] at hkind
        have hzero : Entry.default.kindSince start = none := by
          have hnot : ∀ n : UInt64, n = 0 → ¬ start < n := by
            rintro n rfl
            exact UInt64.not_lt_zero
          unfold Entry.kindSince
          rw [if_neg (hnot Entry.default.deleted rfl),
            if_neg (hnot (max Entry.default.created Entry.default.updated) rfl)]
        exact absurd (hzero.symm.trans hkind) nofun
      | some e =>
        rw [he] at hkind
        have hin : (⟨⟨kind, path⟩, e.includedWatchRoot⟩ : PendingEvent) ∈ s.pendingSince start := by
          refine List.mem_filterMap.2 ⟨(path, e), ?_, ?_⟩
          · exact Std.ExtTreeMap.mem_toList_iff_getElem?_eq_some.2 he
          · show (e.kindSince start).map _ = _
            rw [show e.kindSince start = some kind from hkind]
            rfl
        have hnot := List.find?_eq_none.1 hfind _ hin
        simp at hnot

/-- what `kindSince` answers, by the truth about the path -/
theorem kindSince_of_since (s : State E) (start : UInt64) (atStart there rep had : Bool)
    (ht : Tracks s path there) (hs : Since s path start.toNat atStart there rep had) :
    (s.entry path).kindSince start =
      if had = false then none
      else if there = true then some .update
      else if start.toNat < s.created path then none
      else some .delete := by
  have hmax : start < max (s.entry path).created (s.entry path).updated ↔
      start.toNat < max (s.created path) (s.updated path) := by
    have hm : max (s.entry path).created (s.entry path).updated =
        if (s.entry path).created ≤ (s.entry path).updated then (s.entry path).updated
        else (s.entry path).created := rfl
    rw [hm, UInt64.lt_iff_toNat_lt]
    show _ ↔ start.toNat < max (s.entry path).created.toNat (s.entry path).updated.toNat
    split
    next hle =>
      rw [UInt64.le_iff_toNat_le] at hle
      omega
    next hle =>
      rw [UInt64.le_iff_toNat_le] at hle
      omega
  unfold Entry.kindSince
  simp only [UInt64.lt_iff_toNat_lt, hmax]
  show (if start.toNat < s.deleted path then
    if start.toNat < s.created path ∧ s.created path < s.deleted path ∧
      s.updated path < s.deleted path then none else some EventKind.delete
    else if start.toNat < max (s.created path) (s.updated path) then some EventKind.update
    else none) = _
  cases had with
  | false =>
    obtain ⟨hc, hu, hd, -⟩ := hs.quiet rfl
    rw [if_neg (by omega), if_neg (by omega), if_pos rfl]
  | true =>
    rw [if_neg (show ¬ true = false from nofun)]
    cases there with
    | true =>
      have hd := ht.here rfl
      have hr := hs.recent rfl rfl
      rw [if_neg (by omega), if_pos hr, if_pos rfl]
    | false =>
      have hr := hs.removed rfl rfl
      rw [if_pos hr]
      rcases ht.gone rfl with ⟨hc, hu⟩ | ⟨-, -, hzero⟩
      · by_cases hcr : start.toNat < s.created path
        · rw [if_pos ⟨hcr, hc, hu⟩]
          simp [hcr]
        · rw [if_neg fun hx => hcr hx.1]
          simp [hcr]
      · omega

/-! ## The main result -/

/-- **a subscriber sees what it should of a path, unless the path was there at its start, is not
there at the end, and its last create since the start had found it there** -/
theorem correct_iff (s : State E) (path : Path) (there : Bool) (before after : List (Operation × Path))
    (starts : List UInt64) (j : Nat) (events : List PendingEvent)
    (hfresh : s.entries[path]? = none) (hposs : Possible path there (before ++ after))
    (hfew : s.sequence.toNat + (before ++ after).length < 2 ^ 64)
    (hstart : starts[j]? = some (run before s).sequence)
    (hevents : ((run (before ++ after) s).drainForSequences starts).1.1[j]? = some events) :
    Correct (present path there before) (present path there (before ++ after)) (hadEvent path after)
        (resultFor path events) ↔
      ¬ (present path there before = true ∧ present path there (before ++ after) = false ∧
        replaced path (present path there before) after = true) := by
  obtain ⟨hbefore, hafter⟩ := (possible_append there before after).1 hposs
  rw [List.length_append] at hfew
  have hseq := sequence_run before s (by omega)
  have ht := tracks_run before s there (by omega) hbefore (tracks_fresh s there hfresh)
  have hrun : run (before ++ after) s = run after (run before s) := List.foldl_append
  have hpres : present path there (before ++ after) = present path (present path there before) after :=
    List.foldl_append
  have ht' := tracks_run after (run before s) _ (by omega) hafter ht
  have hs' := since_run after (run before s) _ _ _ false false (by omega) hafter ht
    (since_start (run before s) _ ht)
  have hev : events = (run (before ++ after) s).pendingSince (run before s).sequence := by
    rw [State.drainForSequences, List.getElem?_map, hstart] at hevents
    exact (Option.some.inj hevents).symm
  rw [hev, resultFor_pendingSince, hrun, hpres, kindSince_of_since _ _ _ _ _ _ ht' hs', Bool.false_or]
  have hrep := hs'.replaced
  have hquiet := hs'.quiet
  show Correct (present path there before) (present path (present path there before) after) _ _ ↔ _
  have hrepeq : (after.foldl (trackReplaced path) (present path there before, false)).2 =
    replaced path (present path there before) after := rfl
  rw [hrepeq] at hrep
  rw [Bool.false_or] at hquiet
  generalize replaced path (present path there before) after = rep at *
  generalize present path (present path there before) after = atEnd at *
  generalize present path there before = atStart at *
  generalize hadEvent path after = had at *
  generalize (run after (run before s)).created path = created at *
  constructor
  · rintro ⟨hdel, -, -⟩ ⟨rfl, rfl, rfl⟩
    have hcr := (hrep rfl).2 rfl
    have h := hdel rfl rfl
    cases had with
    | false => cases h
    | true => simp [hcr] at h
  · intro hnot
    cases had with
    | false =>
      -- without an event the path is as it was
      obtain ⟨-, -, -, rfl⟩ := hquiet rfl
      exact ⟨fun h1 h2 => absurd (h1.symm.trans h2) nofun, nofun, fun _ => Or.inr rfl⟩
    | true =>
      cases atEnd with
      | true => exact ⟨nofun, fun _ _ => rfl, fun h => absurd h nofun⟩
      | false =>
        cases atStart with
        | false => exact ⟨nofun, nofun, fun _ => Or.inl ⟨rfl, rfl⟩⟩
        | true =>
          have hcr : ¬ (run before s).sequence.toNat < created :=
            fun hc => hnot ⟨rfl, rfl, (hrep rfl).1 hc⟩
          refine ⟨fun _ _ => ?_, nofun, fun h => ?_⟩
          · simp [hcr]
          · simp [hcr] at h

end

/-- a file that was there is removed, put back and removed -/
theorem correct_again : Correct true false true
    (resultFor [97] ((run [(.remove, [97]), (.create, [97]), (.remove, [97])]
      (State.default : State Unit)).pendingSince 0)) :=
  (correct_iff State.default [97] true [] [(.remove, [97]), (.create, [97]), (.remove, [97])] [0] 0 _
    (by rfl) (by decide) (by decide) rfl rfl).2 (by decide)

/-- a file that was there is replaced by rename and removed, and the subscriber sees nothing -/
theorem replaced_then_removed :
    Possible [97] true [(.create, [97]), (.remove, [97])] ∧
    ((run [(.create, [97]), (.remove, [97])] (State.default : State Unit)).drainForSequences [0]).1.1 =
      [[]] ∧
    ¬ Correct true (present [97] true [(.create, [97]), (.remove, [97])]) true (resultFor [97] []) := by
  refine ⟨by simp [Possible, track], by rfl, fun h => ?_⟩
  exact absurd (h.delete rfl (by decide)) (by decide)

end Tsr.Fswatch
