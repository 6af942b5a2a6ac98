import Tsr.Fswatch.Watcher
import Tsr.Lib.Run

/-!
# Registrations and native subscriptions

A registration takes a listed watch of its directory as it is, also when the native subscription of
the directory went with a deletion or a move, or when the worker stopped: it then succeeds and no
event can arrive (`removed_root_is_reused`).

In every run in which no registration meets such a watch, and none falls into the time between the
failure of the read loop and the retirement of its descriptor, every subscription that a registration
returned is live when it returns (`live_of_meets`).
-/

namespace Tsr.Fswatch.Watcher
open Tsr.Fswatch Tsr.Lib.Run

/-! ## The property -/

def Backend.hasRoot (b : Backend) (watch : Nat) (dir : Path) : Bool :=
  b.subscriptions.any fun entry => entry.2.any fun sub => sub.watch == watch && sub.path == dir

/-- the watch has a native subscription for its directory, and someone reads its events -/
def Live (s : State) (id : Nat) : Prop :=
  ∃ b w, s.backend = some b ∧ b.loop = .running ∧ s.objects[id]? = some w ∧
    b.hasRoot id w.dir = true

def Holds (s : State) : Prop :=
  ∀ registrations, s.returned = some (.ok registrations) → ∀ r ∈ registrations, Live s r.1

/-- the listed watches that the requests meet are live; with a stopped worker some request needs a
watch of its own, which it does not get -/
def meets (a : Action) (s : State) : Bool :=
  match a, s.backend with
  | .register (.ok requests) _ _, some b =>
    requests.isEmpty ||
    (b.loop == .running &&
      requests.all fun r => (findDir s.objects s.dirs r).all fun id => b.hasRoot id r.dir) ||
    (b.loop == .retired && requests.any fun r => (findDir s.objects s.dirs r).isNone)
  | _, _ => true

/-! ## Native subscriptions -/

namespace Backend

theorem hasRoot_iff (b : Backend) (watch : Nat) (dir : Path) : b.hasRoot watch dir = true ↔
    ∃ entry ∈ b.subscriptions, ∃ sub ∈ entry.2, sub.watch = watch ∧ sub.path = dir := by
  unfold hasRoot
  simp only [List.any_eq_true, Bool.and_eq_true, beq_iff_eq]

theorem mem_pushSubscription (key : Nat) (sub : Subscription)
    (subscriptions : List (Nat × List Subscription)) :
    ∃ entry ∈ pushSubscription key sub subscriptions, sub ∈ entry.2 := by
  induction subscriptions with
  | nil => exact ⟨(key, [sub]), List.mem_singleton.2 rfl, List.mem_singleton.2 rfl⟩
  | cons entry rest ih =>
    obtain ⟨k, subs⟩ := entry
    unfold pushSubscription
    split
    next => exact ⟨(k, subs ++ [sub]), List.mem_cons_self .., List.mem_append_right _ (List.mem_cons_self ..)⟩
    next =>
      obtain ⟨entry, hmem, hsub⟩ := ih
      exact ⟨entry, List.mem_cons_of_mem _ hmem, hsub⟩

/-- nothing goes when a subscription is added -/
theorem pushSubscription_keeps (key : Nat) (sub : Subscription)
    (subscriptions : List (Nat × List Subscription)) (entry : Nat × List Subscription)
    (h : entry ∈ subscriptions) (other : Subscription) (ho : other ∈ entry.2) :
    ∃ entry ∈ pushSubscription key sub subscriptions, other ∈ entry.2 := by
  induction subscriptions with
  | nil => cases h
  | cons first rest ih =>
    obtain ⟨k, subs⟩ := first
    unfold pushSubscription
    rcases List.mem_cons.1 h with rfl | h
    · split
      next => exact ⟨(k, subs ++ [sub]), List.mem_cons_self .., List.mem_append_left _ ho⟩
      next => exact ⟨(k, subs), List.mem_cons_self .., ho⟩
    · split
      next => exact ⟨entry, List.mem_cons_of_mem _ h, ho⟩
      next =>
        obtain ⟨e, hmem, hother⟩ := ih h
        exact ⟨e, List.mem_cons_of_mem _ hmem, hother⟩

/-- what adding native subscriptions leaves alone -/
structure Grows (b b' : Backend) : Prop where
  loop : b'.loop = b.loop
  watches : b'.watches = b.watches
  roots : ∀ watch dir, b.hasRoot watch dir = true → b'.hasRoot watch dir = true

theorem Grows.refl (b : Backend) : Grows b b := ⟨rfl, rfl, fun _ _ h => h⟩

theorem Grows.trans {b b1 b2 : Backend} (h1 : Grows b b1) (h2 : Grows b1 b2) : Grows b b2 :=
  ⟨h2.loop.trans h1.loop, h2.watches.trans h1.watches,
    fun watch dir h => h2.roots watch dir (h1.roots watch dir h)⟩

theorem addDir_grows (b : Backend) (watch : Nat) (path physical : Path) (native : Native) :
    Grows b (b.addDir watch path physical native).1 := by
  unfold addDir
  split
  next =>
    cases native with
    | failed errno => exact Grows.refl b
    | added key =>
      refine ⟨rfl, rfl, fun w dir h => ?_⟩
      obtain ⟨entry, hmem, sub, hsub, hw, hp⟩ := (hasRoot_iff b w dir).1 h
      obtain ⟨entry', hmem', hsub'⟩ := pushSubscription_keeps key ⟨path, physical, watch⟩ _ entry hmem sub hsub
      exact (hasRoot_iff _ w dir).2 ⟨entry', hmem', sub, hsub', hw, hp⟩
  next => exact Grows.refl b

theorem addDir_root (b b' : Backend) (watch : Nat) (path physical : Path) (native : Native)
    (h : b.addDir watch path physical native = (b', none)) : b'.hasRoot watch path = true := by
  unfold addDir at h
  split at h
  next =>
    cases native with
    | failed errno => cases h
    | added key =>
      cases h
      obtain ⟨entry, hmem, hsub⟩ := mem_pushSubscription key ⟨path, physical, watch⟩ b.subscriptions
      exact (hasRoot_iff _ watch path).2 ⟨entry, hmem, _, hsub, rfl, rfl⟩
  next => cases h

theorem addDirs_grows (watch : Nat) (w : DirWatch) (walk : List (Path × Native)) (b : Backend) :
    Grows b (b.addDirs watch w walk).1 := by
  induction walk generalizing b with
  | nil => exact Grows.refl b
  | cons first rest ih =>
    obtain ⟨physical, native⟩ := first
    have hfirst := addDir_grows b watch (w.displayPath physical) physical native
    unfold addDirs
    split
    next b1 errno heq =>
      rw [heq] at hfirst
      exact hfirst
    next b1 heq =>
      rw [heq] at hfirst
      exact hfirst.trans (ih b1)

/-- the directory of a watch is shown under its own name -/
theorem displayPath_root (w : DirWatch) (h : startsWithSlash w.physicalDir = true) :
    w.displayPath w.physicalDir = w.dir := by
  unfold DirWatch.displayPath rebasePath
  have hne : w.physicalDir ≠ [] := by
    intro heq
    rw [heq] at h
    cases h
  have hin : isInDirectoryOrSelf w.physicalDir w.physicalDir = true := by
    unfold isInDirectoryOrSelf
    simp [hne]
  split
  next hsame =>
    rcases hsame with hsame | hsame
    · exact hsame
    · rw [hin] at hsame
      cases hsame
  next =>
    rw [List.drop_length]
    rfl

theorem subscribe_grows (b : Backend) (watch : Nat) (w : DirWatch) (walk : Walk) :
    Grows b (b.subscribe watch w walk).1 := by
  unfold subscribe
  split
  next =>
    split
    next =>
      have h := addDirs_grows watch w ((w.physicalDir, walk.root) :: walk.below) b
      split
      next b1 path errno heq =>
        rw [heq] at h
        exact h
      next b1 heq =>
        rw [heq] at h
        exact h
    next =>
      have h := addDir_grows b watch w.dir w.physicalDir walk.root
      split
      next b1 errno heq =>
        rw [heq] at h
        exact h
      next b1 heq =>
        rw [heq] at h
        exact h
  next => exact Grows.refl b

theorem subscribe_root (b b' : Backend) (watch : Nat) (w : DirWatch) (walk : Walk)
    (habs : startsWithSlash w.physicalDir = true)
    (h : b.subscribe watch w walk = (b', none)) : b'.hasRoot watch w.dir = true := by
  unfold subscribe at h
  split at h
  next =>
    split at h
    next =>
      split at h
      next => cases h
      next b1 heq =>
        obtain ⟨rfl, -⟩ := Prod.mk.inj h
        unfold addDirs at heq
        rw [displayPath_root w habs] at heq
        split at heq
        next => cases heq
        next b2 hfirst =>
          have hgrows := addDirs_grows watch w walk.below b2
          rw [heq] at hgrows
          exact hgrows.roots watch w.dir (addDir_root b b2 watch w.dir w.physicalDir walk.root hfirst)
    next =>
      split at h
      next => cases h
      next b1 heq =>
        obtain ⟨rfl, -⟩ := Prod.mk.inj h
        exact addDir_root b b1 watch w.dir w.physicalDir walk.root heq
  next => cases h

/-- closing watches adds none -/
theorem foldl_closeWatch_watches (ids : List Nat) (b : Backend) :
    ∀ id ∈ (ids.foldl closeWatch b).watches, id ∈ b.watches := by
  induction ids generalizing b with
  | nil => exact fun id h => h
  | cons first rest ih =>
    intro id h
    exact (List.mem_filter.1 (ih (b.closeWatch first) id h)).1

/-- what the first of several watches comes to -/
inductive AddsFirst (objects : List DirWatch) (walks : Nat → Walk) (first : Nat) (rest added : List Nat)
    (b : Backend) : Backend × Option Error → Prop
  | skipped (h : first ∈ b.watches ∨ objects[first]? = none) :
      AddsFirst objects walks first rest added b (b.addMany objects walks rest added)
  | failed (w : DirWatch) (b1 : Backend) (error : Error) (hout : first ∉ b.watches)
      (hw : objects[first]? = some w) (hsub : b.subscribe first w (walks first) = (b1, some error)) :
      AddsFirst objects walks first rest added b (added.foldl closeWatch (b1.closeWatch first), some error)
  | taken (w : DirWatch) (b1 : Backend) (hout : first ∉ b.watches) (hw : objects[first]? = some w)
      (hsub : b.subscribe first w (walks first) = (b1, none)) :
      AddsFirst objects walks first rest added b
        (Backend.addMany objects walks rest (added ++ [first]) { b1 with watches := b1.watches ++ [first] })

theorem addMany_first (objects : List DirWatch) (walks : Nat → Walk) (first : Nat) (rest added : List Nat)
    (b : Backend) : AddsFirst objects walks first rest added b (b.addMany objects walks (first :: rest) added) := by
  unfold addMany
  split
  next hin => exact .skipped (Or.inl hin)
  next hout =>
    split
    next hnone => exact .skipped (Or.inr hnone)
    next w hw =>
      split
      next b1 error hsub => exact .failed w b1 error hout hw hsub
      next b1 hsub => exact .taken w b1 hout hw hsub

theorem addMany_watches (objects : List DirWatch) (walks : Nat → Walk) (ids added : List Nat)
    (b : Backend) : ∀ id ∈ (b.addMany objects walks ids added).1.watches, id ∈ b.watches ∨ id ∈ ids := by
  induction ids generalizing added b with
  | nil => exact fun id h => .inl h
  | cons first rest ih =>
    intro id
    have hfirst := addMany_first objects walks first rest added b
    generalize b.addMany objects walks (first :: rest) added = out at hfirst
    cases hfirst with
    | skipped _ => exact fun h => (ih added b id h).imp_right (List.mem_cons_of_mem _)
    | failed w b1 error _ _ hsub =>
      have hgrows := subscribe_grows b first w (walks first)
      rw [hsub] at hgrows
      intro h
      have h1 := foldl_closeWatch_watches added _ id h
      rw [← hgrows.watches]
      exact .inl (List.mem_filter.1 h1).1
    | taken w b1 _ _ hsub =>
      have hgrows := subscribe_grows b first w (walks first)
      rw [hsub] at hgrows
      intro h
      rcases ih (added ++ [first]) _ id h with h1 | h1
      · change id ∈ b1.watches ++ [first] at h1
        rw [hgrows.watches] at h1
        rcases List.mem_append.1 h1 with h1 | h1
        · exact .inl h1
        · rw [List.mem_singleton.1 h1]
          exact .inr (List.mem_cons_self ..)
      · exact .inr (List.mem_cons_of_mem _ h1)

/-- the loop, and the roots of what was there -/
theorem addMany_ok (objects : List DirWatch) (walks : Nat → Walk) (ids added : List Nat)
    (b b' : Backend) (h : b.addMany objects walks ids added = (b', none)) :
    b'.loop = b.loop ∧ ∀ watch dir, b.hasRoot watch dir = true → b'.hasRoot watch dir = true := by
  induction ids generalizing added b with
  | nil =>
    cases h
    exact ⟨rfl, fun _ _ h => h⟩
  | cons first rest ih =>
    have hfirst := addMany_first objects walks first rest added b
    rw [h] at hfirst
    generalize hout : (b', none) = out at hfirst
    cases hfirst with
    | skipped _ => exact ih added b hout.symm
    | failed _ _ _ _ _ _ => cases hout
    | taken w b1 _ _ hsub =>
      have hgrows := subscribe_grows b first w (walks first)
      rw [hsub] at hgrows
      obtain ⟨hloop, hroots⟩ := ih (added ++ [first]) _ hout.symm
      exact ⟨hloop.trans hgrows.loop, fun watch dir hr => hroots watch dir (hgrows.roots watch dir hr)⟩

/-- every watch that was new has its root -/
theorem addMany_roots (objects : List DirWatch) (walks : Nat → Walk) (ids added : List Nat)
    (b b' : Backend) (h : b.addMany objects walks ids added = (b', none))
    (hknown : ∀ id ∈ ids, id ∈ b.watches → ∀ w, objects[id]? = some w → b.hasRoot id w.dir = true)
    (habs : ∀ id ∈ ids, ∀ w, objects[id]? = some w → startsWithSlash w.physicalDir = true) :
    ∀ id ∈ ids, ∀ w, objects[id]? = some w → b'.hasRoot id w.dir = true := by
  induction ids generalizing added b with
  | nil => exact fun id hid => absurd hid List.not_mem_nil
  | cons first rest ih =>
    have hknown' : ∀ id ∈ rest, id ∈ b.watches → ∀ w, objects[id]? = some w → b.hasRoot id w.dir = true :=
      fun id hid => hknown id (List.mem_cons_of_mem _ hid)
    have habs' : ∀ id ∈ rest, ∀ w, objects[id]? = some w → startsWithSlash w.physicalDir = true :=
      fun id hid => habs id (List.mem_cons_of_mem _ hid)
    have hfirst := addMany_first objects walks first rest added b
    rw [h] at hfirst
    generalize hout : (b', none) = out at hfirst
    intro id hid w hw
    cases hfirst with
    | skipped hskip =>
      rcases List.mem_cons.1 hid with rfl | hid
      · rcases hskip with hin | hnone
        · exact (addMany_ok objects walks rest added b b' hout.symm).2 id w.dir
            (hknown id (List.mem_cons_self ..) hin w hw)
        · rw [hnone] at hw
          cases hw
      · exact ih added b hout.symm hknown' habs' id hid w hw
    | failed _ _ _ _ _ _ => cases hout
    | taken v b1 _ hv hsub =>
      have hgrows := subscribe_grows b first v (walks first)
      rw [hsub] at hgrows
      have hroot := subscribe_root b b1 first v (walks first)
        (habs first (List.mem_cons_self ..) v hv) hsub
      rcases List.mem_cons.1 hid with rfl | hid
      · rw [hv] at hw
        cases hw
        exact (addMany_ok objects walks rest _ _ b' hout.symm).2 id w.dir hroot
      · refine ih _ _ hout.symm (fun j hj hjw x hx => ?_) habs' id hid w hw
        change j ∈ b1.watches ++ [first] at hjw
        rw [hgrows.watches] at hjw
        rcases List.mem_append.1 hjw with hjw | hjw
        · exact hgrows.roots j x.dir (hknown' j hj hjw x hx)
        · rw [List.mem_singleton.1 hjw] at hx ⊢
          rw [hv] at hx
          cases hx
          exact hroot

/-- without a descriptor no new watch is taken -/
theorem addMany_retired (objects : List DirWatch) (walks : Nat → Walk) (ids : List Nat) (b : Backend)
    (hfd : b.loop = .retired) (hne : ids ≠ []) (hnew : ∀ id ∈ ids, id ∉ b.watches)
    (hobj : ∀ id ∈ ids, id < objects.length) (added : List Nat) (b' : Backend) :
    b.addMany objects walks ids added ≠ (b', none) := by
  cases ids with
  | nil => exact absurd rfl hne
  | cons first rest =>
    have hlt := hobj first (List.mem_cons_self ..)
    have hsub : ∀ w, b.subscribe first w (walks first) = (b, some (.directoryWatch w.dir w.dir 9)) := by
      intro w
      unfold subscribe hasFd
      rw [hfd]
      rfl
    intro h
    have hfirst := addMany_first objects walks first rest added b
    rw [h] at hfirst
    generalize hout : (b', none) = out at hfirst
    cases hfirst with
    | skipped hskip =>
      rcases hskip with hin | hnone
      · exact hnew first (List.mem_cons_self ..) hin
      · rw [List.getElem?_eq_getElem hlt] at hnone
        cases hnone
    | failed _ _ _ _ _ _ => cases hout
    | taken w b1 _ _ htaken =>
      rw [hsub w] at htaken
      cases (Prod.mk.inj htaken).2

end Backend

variable {objects : List DirWatch} {dirs : List Nat} {requests : List Request} {l : Listing} {s : State}

/-! ## Listings -/

/-- what the requests so far have done to the list of the owner -/
structure Listed (objects : List DirWatch) (dirs : List Nat) (requests : List Request) (l : Listing) :
    Prop where
  length : objects.length ≤ l.objects.length
  kept : ∀ (id : Nat) (w : DirWatch), objects[id]? = some w → ∃ w', l.objects[id]? = some w' ∧
    w'.dir = w.dir ∧ w'.recursive = w.recursive
  added : ∀ id ∈ l.added, objects.length ≤ id ∧ id < l.objects.length
  absolute : ∀ id ∈ l.added, ∀ w, l.objects[id]? = some w → startsWithSlash w.physicalDir = true
  list : l.dirs = dirs ++ l.added
  registered : ∀ r ∈ l.registrations, r.1 ∈ l.added ∨
    ∃ request ∈ requests, findDir objects dirs request = some r.1
  needed : ∀ request ∈ requests, findDir objects dirs request = none → l.added ≠ []

/-- a callback changes no directory -/
theorem subscribe_kept (l : Listing) (id : Nat) (other : Nat) (w : DirWatch)
    (h : l.objects[other]? = some w) : ∃ w', (l.subscribe id).objects[other]? = some w' ∧
      w'.dir = w.dir ∧ w'.recursive = w.recursive ∧ w'.physicalDir = w.physicalDir := by
  unfold Listing.subscribe
  split
  next => exact ⟨w, h, rfl, rfl, rfl⟩
  next v hv =>
    by_cases heq : other = id
    · subst heq
      rw [hv] at h
      cases h
      obtain ⟨hlt, -⟩ := List.getElem?_eq_some_iff.1 hv
      exact ⟨_, List.getElem?_set_self hlt, rfl, rfl, rfl⟩
    · refine ⟨w, ?_, rfl, rfl, rfl⟩
      show (l.objects.set id v.watch.1)[other]? = some w
      rw [List.getElem?_set_ne (Ne.symm heq)]
      exact h

theorem subscribe_length (l : Listing) (id : Nat) : (l.subscribe id).objects.length = l.objects.length := by
  unfold Listing.subscribe
  split
  next => rfl
  next => exact List.length_set

theorem subscribe_back (l : Listing) (id : Nat) (other : Nat) (w : DirWatch)
    (h : (l.subscribe id).objects[other]? = some w) : ∃ w', l.objects[other]? = some w' ∧
      w.physicalDir = w'.physicalDir := by
  have hlt : other < l.objects.length := by
    rw [← subscribe_length l id]
    exact (List.getElem?_eq_some_iff.1 h).1
  obtain ⟨w1, h1, -, -, hp⟩ := subscribe_kept l id other _ (List.getElem?_eq_getElem hlt)
  rw [h] at h1
  cases h1
  exact ⟨_, List.getElem?_eq_getElem hlt, hp⟩

theorem subscribe_fields (l : Listing) (id : Nat) : (l.subscribe id).dirs = l.dirs ∧
    (l.subscribe id).added = l.added ∧ ∀ r ∈ (l.subscribe id).registrations,
      r ∈ l.registrations ∨ r.1 = id := by
  unfold Listing.subscribe
  split
  next => exact ⟨rfl, rfl, fun r hr => .inl hr⟩
  next =>
    refine ⟨rfl, rfl, fun r hr => ?_⟩
    rcases List.mem_append.1 hr with hr | hr
    · exact .inl hr
    · rw [List.mem_singleton.1 hr]
      exact .inr rfl

theorem listed_subscribe (h : Listed objects dirs requests l) (id : Nat)
    (hid : id ∈ l.added ∨ ∃ request ∈ requests, findDir objects dirs request = some id) :
    Listed objects dirs requests (l.subscribe id) := by
  obtain ⟨hdirs, hadded, hregs⟩ := subscribe_fields l id
  refine ⟨?_, fun other w hw => ?_, ?_, ?_, ?_, fun r hr => ?_, ?_⟩
  · rw [subscribe_length]
    exact h.length
  · obtain ⟨w1, h1, hd, hrec⟩ := h.kept other w hw
    obtain ⟨w2, h2, hd2, hrec2, -⟩ := subscribe_kept l id other w1 h1
    exact ⟨w2, h2, hd2.trans hd, hrec2.trans hrec⟩
  · rw [hadded, subscribe_length]
    exact h.added
  · rw [hadded]
    intro other hother w hw
    obtain ⟨w', hw', hp⟩ := subscribe_back l id other w hw
    rw [hp]
    exact h.absolute other hother w' hw'
  · rw [hdirs, hadded]
    exact h.list
  · rw [hadded]
    rcases hregs r hr with hr | rfl
    · exact h.registered r hr
    · exact hid
  · rw [hadded]
    exact h.needed

/-- the old part of the list is searched as before -/
theorem findDir_listed (h : Listed objects dirs requests l) (hdirs : ∀ id ∈ dirs, id < objects.length)
    (request : Request) : findDir l.objects l.dirs request =
      (findDir objects dirs request).or (findDir l.objects l.added request) := by
  unfold findDir
  rw [h.list, List.find?_append]
  congr 1
  refine List.find?_congr fun id hid => ?_
  have hlt := hdirs id hid
  obtain ⟨w', hw', hd, hrec⟩ := h.kept id _ (List.getElem?_eq_getElem hlt)
  rw [hw', List.getElem?_eq_getElem hlt]
  simp only [Option.any_some, hd, hrec]

/-- a request more -/
theorem Listed.weaken (h : Listed objects dirs requests l) (request : Request)
    (hneeded : findDir objects dirs request = none → l.added ≠ []) :
    Listed objects dirs (requests ++ [request]) l := by
  refine ⟨h.length, h.kept, h.added, h.absolute, h.list, fun r hr => ?_, fun q hq hnone => ?_⟩
  · rcases h.registered r hr with hr | ⟨q, hq, hfind⟩
    · exact .inl hr
    · exact .inr ⟨q, List.mem_append_left _ hq, hfind⟩
  · rcases List.mem_append.1 hq with hq | hq
    · exact h.needed q hq hnone
    · rw [List.mem_singleton.1 hq] at hnone
      exact hneeded hnone

/-- a new watch at the end of the list -/
theorem listed_new (h : Listed objects dirs requests l) (request : Request) :
    Listed objects dirs requests { l with
      objects := l.objects ++ [⟨request.dir, request.physical, request.recursive, 0, []⟩]
      dirs := l.dirs ++ [l.objects.length]
      added := l.added ++ [l.objects.length] } := by
  have hlen : (l.objects ++ [(⟨request.dir, request.physical, request.recursive, 0, []⟩ : DirWatch)]).length =
      l.objects.length + 1 := by rw [List.length_append, List.length_singleton]
  refine ⟨?_, fun id w hw => ?_, fun id hid => ?_, fun id hid w hw => ?_, ?_, fun r hr => ?_, ?_⟩
  · show objects.length ≤ (l.objects ++ _).length
    rw [hlen]
    exact Nat.le_succ_of_le h.length
  · obtain ⟨w', hw', hd⟩ := h.kept id w hw
    refine ⟨w', ?_, hd⟩
    rw [List.getElem?_append_left (List.getElem?_eq_some_iff.1 hw').1]
    exact hw'
  · show objects.length ≤ id ∧ id < (l.objects ++ _).length
    rw [hlen]
    rcases List.mem_append.1 hid with hid | hid
    · have := h.added id hid
      omega
    · rw [List.mem_singleton.1 hid]
      exact ⟨h.length, Nat.lt_succ_self _⟩
  · change (l.objects ++ _)[id]? = some w at hw
    rcases List.mem_append.1 hid with hid | hid
    · rw [List.getElem?_append_left (h.added id hid).2] at hw
      exact h.absolute id hid w hw
    · rw [List.mem_singleton.1 hid, List.getElem?_concat_length] at hw
      cases hw
      exact request.physicalAbsolute
  · show l.dirs ++ [l.objects.length] = dirs ++ (l.added ++ [l.objects.length])
    rw [h.list, List.append_assoc]
  · rcases h.registered r hr with hr | hr
    · exact .inl (List.mem_append_left _ hr)
    · exact .inr hr
  · exact fun q hq hnone => List.append_ne_nil_of_right_ne_nil _ (List.cons_ne_nil _ _)

theorem listed_request (h : Listed objects dirs requests l) (hdirs : ∀ id ∈ dirs, id < objects.length)
    (request : Request) : Listed objects dirs (requests ++ [request]) (l.request request) := by
  have hfind := findDir_listed h hdirs request
  unfold Listing.request
  split
  next id hid =>
    rw [hid] at hfind
    cases hold : findDir objects dirs request with
    | some old =>
      rw [hold] at hfind
      cases hfind
      refine listed_subscribe (h.weaken request fun hnone => ?_) id (.inr ⟨request, ?_, hold⟩)
      · rw [hold] at hnone
        cases hnone
      · exact List.mem_append_right _ (List.mem_singleton.2 rfl)
    | none =>
      rw [hold] at hfind
      have hmem : id ∈ l.added := List.mem_of_find?_eq_some hfind.symm
      refine listed_subscribe (h.weaken request fun _ hnil => ?_) id (.inl hmem)
      rw [hnil] at hmem
      cases hmem
  next =>
    refine listed_subscribe ((listed_new h request).weaken request fun _ => ?_) _ (.inl ?_)
    · exact List.append_ne_nil_of_right_ne_nil _ (List.cons_ne_nil _ _)
    · exact List.mem_append_right _ (List.mem_singleton.2 rfl)

theorem listed_foldl
    (hdirs : ∀ id ∈ dirs, id < objects.length) (rest requests : List Request) (l : Listing)
    (h : Listed objects dirs requests l) :
    Listed objects dirs (requests ++ rest) (rest.foldl Listing.request l) := by
  induction rest generalizing requests l with
  | nil =>
    rw [List.append_nil]
    exact h
  | cons request rest ih =>
    have hnext := ih (requests ++ [request]) (l.request request) (listed_request h hdirs request)
    rw [List.append_assoc] at hnext
    exact hnext

theorem listed_all
    (hdirs : ∀ id ∈ dirs, id < objects.length) (requests : List Request) :
    Listed objects dirs requests (requests.foldl Listing.request ⟨objects, dirs, [], []⟩) := by
  have hnone : ∀ id, id ∉ ([] : List Nat) := fun id h => absurd h List.not_mem_nil
  refine listed_foldl hdirs requests [] _ ⟨Nat.le_refl _, fun id w hw => ⟨w, hw, rfl, rfl⟩, ?_, ?_, ?_, ?_, ?_⟩
  · exact fun id h => absurd h (hnone id)
  · exact fun id h => absurd h (hnone id)
  · exact (List.append_nil _).symm
  · exact fun r hr => absurd hr List.not_mem_nil
  · exact fun q hq => absurd hq List.not_mem_nil

/-! ## The invariant -/

structure Inv (s : State) : Prop where
  stopped : s.backend = none → s.dirs = []
  listed : ∀ id ∈ s.dirs, id < s.objects.length
  known : ∀ b, s.backend = some b → ∀ id ∈ b.watches, id < s.objects.length

theorem unwatchAll_length (objects : List DirWatch) (registrations : List (Nat × UInt64)) :
    (unwatchAll objects registrations).length = objects.length := by
  unfold unwatchAll
  induction registrations generalizing objects with
  | nil => rfl
  | cons r rest ih =>
    rw [List.foldl_cons, ih, List.length_modify]

theorem stopIfEmpty_none (dirs : List Nat) (b : Backend) (h : stopIfEmpty dirs b = none) : dirs = [] := by
  unfold stopIfEmpty at h
  split at h
  next hnil => exact List.isEmpty_iff.1 hnil
  next => cases h

theorem stopIfEmpty_some (dirs : List Nat) (b b' : Backend) (h : stopIfEmpty dirs b = some b') :
    b' = b := by
  unfold stopIfEmpty at h
  split at h
  next => cases h
  next => exact (Option.some.inj h).symm

theorem inv_addMany (h : Inv s) (requests : List Request) (l : Listing)
    (hl : Listed s.objects s.dirs requests l) (walks : Nat → Walk) (b : Backend)
    (hb : ∀ id ∈ b.watches, id < s.objects.length) : Inv (s.addMany l walks b) := by
  have hwatches := Backend.addMany_watches l.objects walks l.added [] b
  have hdirs : ∀ id ∈ l.dirs, id < l.objects.length := by
    intro id hid
    rw [hl.list] at hid
    rcases List.mem_append.1 hid with hid | hid
    · exact Nat.lt_of_lt_of_le (h.listed id hid) hl.length
    · exact (hl.added id hid).2
  have hknown : ∀ id, id ∈ b.watches ∨ id ∈ l.added → id < l.objects.length := by
    rintro id (hid | hid)
    · exact Nat.lt_of_lt_of_le (hb id hid) hl.length
    · exact (hl.added id hid).2
  unfold State.addMany
  split
  next b1 error heq =>
    rw [heq] at hwatches
    refine ⟨stopIfEmpty_none _ _, fun id hid => ?_, fun b2 hb2 id hid => ?_⟩
    · show id < (unwatchAll l.objects l.registrations).length
      rw [unwatchAll_length]
      exact hdirs id (List.mem_filter.1 hid).1
    · show id < (unwatchAll l.objects l.registrations).length
      rw [unwatchAll_length]
      rw [stopIfEmpty_some _ _ _ hb2] at hid
      exact hknown id (hwatches id (Backend.foldl_closeWatch_watches l.added b1 id hid))
  next b1 heq =>
    rw [heq] at hwatches
    refine ⟨nofun, hdirs, fun b2 hb2 id hid => ?_⟩
    cases hb2
    exact hknown id (hwatches id hid)

theorem inv_register (h : Inv s) (prepared : Except Error (List Request))
    (startup : Option Error) (walks : Nat → Walk) : Inv (register s prepared startup walks) := by
  unfold register
  split
  next => exact ⟨h.stopped, h.listed, h.known⟩
  next => exact ⟨h.stopped, h.listed, h.known⟩
  next requests _ =>
    split
    next => exact ⟨h.stopped, h.listed, h.known⟩
    next =>
      refine inv_addMany h requests _ (listed_all h.listed requests) walks _ fun id hid => ?_
      cases hb : s.backend with
      | none =>
        rw [hb] at hid
        cases hid
      | some b =>
        rw [hb] at hid
        exact h.known b hb id hid

theorem addDirsBestEffort_watches (watch : Nat) (w : DirWatch) (walk : List (Path × Native))
    (b : Backend) : (b.addDirsBestEffort watch w walk).watches = b.watches := by
  induction walk generalizing b with
  | nil => rfl
  | cons first rest ih =>
    obtain ⟨physical, native⟩ := first
    unfold Backend.addDirsBestEffort
    rw [ih]
    exact (Backend.addDir_grows b watch _ physical native).watches

theorem inotifySubscription_watches (objects : List DirWatch) (mask : Backend.Mask) (name : Path)
    (walk : List (Path × Native)) (b : Backend) (sub : Subscription) :
    (Backend.inotifySubscription objects mask name walk b sub).watches = b.watches := by
  unfold Backend.inotifySubscription
  split
  next => rfl
  next w _ =>
    dsimp only
    split
    next =>
      split
      next => exact addDirsBestEffort_watches sub.watch w walk b
      next => rfl
    next =>
      split
      next => rfl
      next =>
        split
        next =>
          split
          next => rfl
          next =>
            split
            next => rfl
            next => rfl
        next => rfl

theorem fanotifySubscription_watches (objects : List DirWatch) (mask : Backend.Mask) (name : Path)
    (gone : Bool) (walk : List (Path × Native)) (b : Backend) (sub : Subscription) :
    (Backend.fanotifySubscription objects mask name gone walk b sub).watches = b.watches := by
  unfold Backend.fanotifySubscription
  split
  next => rfl
  next w _ =>
    dsimp only
    split
    next => rfl
    next =>
      have hdrop : ∀ (cond : Bool) (path : Path) (recursive : Bool),
          (if cond = true then b.dropPath path recursive else b).watches = b.watches := by
        intro cond path recursive
        split
        next => rfl
        next => rfl
      split
      next => rw [addDirsBestEffort_watches, hdrop]
      next => rw [hdrop]

theorem foldl_watches (f : Backend → Subscription → Backend)
    (hf : ∀ b sub, (f b sub).watches = b.watches) (subs : List Subscription) (b : Backend) :
    (subs.foldl f b).watches = b.watches := by
  induction subs generalizing b with
  | nil => rfl
  | cons sub rest ih => rw [List.foldl_cons, ih, hf]

/-- an action of the worker lists nothing -/
theorem inv_onBackend {s s' : State} (h : Inv s) (f : Backend → Option Backend)
    (hf : ∀ b b', f b = some b' → b'.watches = b.watches) (hstep : onBackend s f = some s') :
    Inv s' := by
  obtain ⟨b', hb', rfl⟩ := Option.map_eq_some_iff.1 hstep
  obtain ⟨b, hb, hfb⟩ := Option.bind_eq_some_iff.1 hb'
  refine ⟨nofun, h.listed, fun b2 hb2 id hid => ?_⟩
  cases hb2
  rw [hf b b' hfb] at hid
  exact h.known b hb id hid

theorem whileRunning_watches (f : Backend → Backend) (hf : ∀ b, (f b).watches = b.watches)
    (b b' : Backend) (h : whileRunning f b = some b') : b'.watches = b.watches := by
  unfold whileRunning at h
  split at h
  next =>
    cases h
    exact hf b
  next => cases h

theorem inv_objects (h : Inv s) (objects : List DirWatch)
    (hlen : objects.length = s.objects.length) : Inv { s with objects := objects } := by
  refine ⟨h.stopped, fun id hid => ?_, fun b hb id hid => ?_⟩
  · show id < objects.length
    rw [hlen]
    exact h.listed id hid
  · show id < objects.length
    rw [hlen]
    exact h.known b hb id hid

theorem inv_close (h : Inv s) (watch : Nat × UInt64) : Inv (close s watch) := by
  have hsub : ∀ id, id ∈ (close s watch).dirs → id ∈ s.dirs := by
    intro id hid
    unfold close at hid
    dsimp only at hid
    split at hid
    next => exact (List.mem_filter.1 hid).1
    next => exact hid
  have hlen : (close s watch).objects.length = s.objects.length := List.length_modify ..
  refine ⟨fun hnone => ?_, fun id hid => ?_, fun b hb id hid => ?_⟩
  · cases hb : s.backend with
    | none =>
      have hnil := h.stopped hb
      refine List.eq_nil_iff_forall_not_mem.2 fun id hid => ?_
      have := hsub id hid
      rw [hnil] at this
      cases this
    | some b =>
      unfold close at hnone
      dsimp only at hnone
      rw [hb] at hnone
      have hall := Option.bind_eq_none_iff.1 hnone
      unfold close
      dsimp only
      split at hall
      next hlast =>
        rw [if_pos hlast]
        exact stopIfEmpty_none _ _ (hall _ rfl)
      next hlast =>
        rw [if_neg hlast]
        exact stopIfEmpty_none _ _ (hall _ rfl)
  · rw [hlen]
    exact h.listed id (hsub id hid)
  · rw [hlen]
    unfold close at hb
    dsimp only at hb
    obtain ⟨b1, hb1, hstop⟩ := Option.bind_eq_some_iff.1 hb
    rw [stopIfEmpty_some _ _ _ hstop] at hid
    split at hb1
    next =>
      obtain ⟨b2, hb2, rfl⟩ := Option.map_eq_some_iff.1 hb1
      exact h.known b2 hb2 id (List.mem_filter.1 hid).1
    next => exact h.known b1 hb1 id hid

theorem inv_step (a : Action) (s s' : State) (h : Inv s) (hstep : step a s = some s') : Inv s' := by
  cases a with
  | register prepared startup walks =>
    cases hstep
    exact inv_register h prepared startup walks
  | close watch =>
    unfold step at hstep
    dsimp only at hstep
    split at hstep
    next =>
      cases hstep
      exact inv_close h watch
    next => cases hstep
  | closeAll =>
    cases hstep
    exact ⟨fun _ => rfl, fun id hid => absurd hid List.not_mem_nil, nofun⟩
  | inotify key mask name walk =>
    refine inv_onBackend h _ (whileRunning_watches _ fun b => ?_) hstep
    exact foldl_watches _ (inotifySubscription_watches s.objects mask name walk) _ b
  | fanotify key mask name gone walk =>
    refine inv_onBackend h _ (whileRunning_watches _ fun b => ?_) hstep
    exact foldl_watches _ (fanotifySubscription_watches s.objects mask name gone walk) _ b
  | fail =>
    refine inv_onBackend h _ (whileRunning_watches _ fun b => ?_) hstep
    rfl
  | retire =>
    refine inv_onBackend h _ (fun b b' hb => ?_) hstep
    split at hb
    next =>
      cases hb
      rfl
    next => cases hb
  | notifyError watch =>
    obtain ⟨s1, h1, rfl⟩ := Option.map_eq_some_iff.1 hstep
    refine inv_objects (inv_onBackend h _ (fun b b' hb => ?_) h1) _ (List.length_modify ..)
    split at hb
    next =>
      cases hb
      rfl
    next => cases hb

theorem inv_init : Inv State.init :=
  ⟨fun _ => rfl, fun _ hid => absurd hid List.not_mem_nil, fun _ hb => absurd hb nofun⟩

/-! ## Registrations -/

/-- the watches that a request met, with their directory -/
theorem findDir_dir (objects : List DirWatch) (dirs : List Nat) (request : Request) (id : Nat)
    (h : findDir objects dirs request = some id) : ∃ w, objects[id]? = some w ∧ w.dir = request.dir := by
  have hp := List.find?_some h
  obtain ⟨w, hw, hmatch⟩ := (Option.any_eq_true _ _).1 hp
  exact ⟨w, hw, beq_iff_eq.1 (Bool.and_eq_true_iff.1 hmatch).1⟩

theorem holds_addMany (requests : List Request) (l : Listing)
    (hl : Listed s.objects s.dirs requests l) (walks : Nat → Walk) (b : Backend)
    (hb : ∀ id ∈ b.watches, id < s.objects.length)
    (hmeets : (b.loop = .running ∧ ∀ r ∈ requests, ∀ id, findDir s.objects s.dirs r = some id →
        b.hasRoot id r.dir = true) ∨
      (b.loop = .retired ∧ ∃ r ∈ requests, findDir s.objects s.dirs r = none)) :
    Holds (s.addMany l walks b) := by
  have hnew : ∀ id ∈ l.added, id ∉ b.watches := fun id hid hin => by
    have := hb id hin
    have := (hl.added id hid).1
    omega
  intro registrations hret r hr
  unfold State.addMany at hret ⊢
  cases hadd : b.addMany l.objects walks l.added [] with
  | mk b1 error =>
    rw [hadd] at hret
    cases error with
    | some error => cases hret
    | none =>
      cases hret
      rcases hmeets with ⟨hrun, hroots⟩ | ⟨hretired, q, hq, hnone⟩
      · obtain ⟨hloop, hkeep⟩ := Backend.addMany_ok l.objects walks l.added [] b b1 hadd
        have hadded := Backend.addMany_roots l.objects walks l.added [] b b1 hadd
          (fun id hid hin => absurd hin (hnew id hid)) hl.absolute
        rcases hl.registered r hr with hin | ⟨q, hq, hfind⟩
        · have hlt := (hl.added r.1 hin).2
          exact ⟨b1, _, rfl, hloop.trans hrun, List.getElem?_eq_getElem hlt,
            hadded r.1 hin _ (List.getElem?_eq_getElem hlt)⟩
        · obtain ⟨w, hw, hdir⟩ := findDir_dir s.objects s.dirs q r.1 hfind
          obtain ⟨w', hw', hdir', -⟩ := hl.kept r.1 w hw
          refine ⟨b1, w', rfl, hloop.trans hrun, hw', ?_⟩
          rw [hdir', hdir]
          exact hkeep r.1 q.dir (hroots q hq r.1 hfind)
      · refine absurd hadd (Backend.addMany_retired l.objects walks l.added b hretired
          (hl.needed q hq hnone) hnew (fun id hid => (hl.added id hid).2) [] b1)

theorem holds_register (h : Inv s) (prepared : Except Error (List Request))
    (startup : Option Error) (walks : Nat → Walk)
    (hm : meets (.register prepared startup walks) s = true) :
    Holds (register s prepared startup walks) := by
  unfold register
  split
  next => exact nofun
  next =>
    intro registrations hret r hr
    cases hret
    cases hr
  next requests hne =>
    split
    next => exact nofun
    next =>
      have hlisted := listed_all h.listed requests
      cases hb : s.backend with
      | none =>
        refine holds_addMany requests _ hlisted walks _ (fun id hid => absurd hid List.not_mem_nil)
          (.inl ⟨rfl, fun r hr id hfind => ?_⟩)
        -- without a backend nothing is listed
        rw [h.stopped hb] at hfind
        cases hfind
      | some b =>
        unfold meets at hm
        rw [hb] at hm
        simp only [Bool.or_eq_true, Bool.and_eq_true, beq_iff_eq, List.isEmpty_iff, List.all_eq_true,
          List.any_eq_true, Option.isNone_iff_eq_none] at hm
        refine holds_addMany requests _ hlisted walks b (h.known b hb) ?_
        rcases hm with (hnil | ⟨hrun, hroots⟩) | ⟨hretired, hnone⟩
        · exact absurd hnil hne
        · refine .inl ⟨hrun, fun r hr id hfind => ?_⟩
          have hroot := hroots r hr
          rw [hfind] at hroot
          exact hroot
        · exact .inr ⟨hretired, hnone⟩

/-- other actions return no registration -/
theorem holds_of_returned_none (h : s.returned = none) : Holds s := by
  intro registrations hret
  rw [h] at hret
  cases hret

theorem onBackend_returned {s s' : State} (f : Backend → Option Backend)
    (h : onBackend s f = some s') : s'.returned = none := by
  obtain ⟨b', -, rfl⟩ := Option.map_eq_some_iff.1 h
  rfl

theorem holds_step (a : Action) (s s' : State) (h : Inv s) (hm : meets a s = true)
    (hstep : step a s = some s') : Holds s' := by
  cases a with
  | register prepared startup walks =>
    cases hstep
    exact holds_register h prepared startup walks hm
  | close watch =>
    unfold step at hstep
    dsimp only at hstep
    split at hstep
    next =>
      cases hstep
      exact holds_of_returned_none rfl
    next => cases hstep
  | closeAll =>
    cases hstep
    exact holds_of_returned_none rfl
  | inotify key mask name walk => exact holds_of_returned_none (onBackend_returned _ hstep)
  | fanotify key mask name gone walk => exact holds_of_returned_none (onBackend_returned _ hstep)
  | fail => exact holds_of_returned_none (onBackend_returned _ hstep)
  | retire => exact holds_of_returned_none (onBackend_returned _ hstep)
  | notifyError watch =>
    obtain ⟨s1, h1, rfl⟩ := Option.map_eq_some_iff.1 hstep
    have hret : s1.returned = none := onBackend_returned _ h1
    exact holds_of_returned_none hret

/-- **Registrations that meet only live watches.**  In every state that such a run reaches, what the
last registration returned is live. -/
theorem live_of_meets (as : List Action) (s : State)
    (hm : along step meets as State.init = true) (h : exec step as State.init = some s) : Holds s := by
  have hinv := exec_invariant_along step meets (fun s => Inv s ∧ Holds s)
    (fun a s s' hs hm hstep => ⟨inv_step a s s' hs.1 hstep, holds_step a s s' hs.1 hm hstep⟩) as _ s
    ⟨inv_init, holds_of_returned_none rfl⟩ hm h
  exact hinv.2

/-- the directory `/a` -/
def requestA : Request := ⟨[47, 97], [47, 97], false, rfl, rfl⟩

/-- the native watch of the directory gets the key 1 -/
def registerA : Action := .register (.ok [requestA]) none fun _ => ⟨.added 1, [], none⟩

/-- the directory is deleted -/
def deleteA : Action := .inotify 1 ⟨false, false, false, false, false, true, false, false⟩ [] []

theorem live_of_meets_twice :
    ∃ s, exec step [registerA, registerA] State.init = some s ∧
      s.returned = some (.ok [(0, 2)]) ∧ Holds s :=
  ⟨_, rfl, rfl, live_of_meets [registerA, registerA] _ rfl rfl⟩

/-- the directory is deleted and made again; its watch is still listed -/
theorem removed_root_is_reused :
    ¬ ∀ (as : List Action) (s : State), exec step as State.init = some s → Holds s := by
  intro hall
  obtain ⟨b, w, hb, -, hw, hroot⟩ := hall [registerA, deleteA, registerA] _ rfl [(0, 2)] rfl (0, 2)
    (List.mem_singleton.2 rfl)
  cases hb
  cases hw
  cases hroot

end Tsr.Fswatch.Watcher
