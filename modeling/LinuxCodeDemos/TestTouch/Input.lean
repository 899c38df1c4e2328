/-
  LinuxCodeDemos.TestTouch.Input

  `ts_read` of the touch screen demo.

  The event device is opened non-blocking, so a read gives a whole event, fewer bytes or -1.
  `ret < sizeof(struct input_event)` compares without sign: fewer bytes end the call, -1 does not,
  and the event of the read before is gone through once more (`lessThanSize_failed`).
-/

import Mathlib.Data.List.Basic
import Mathlib.Algebra.Order.Ring.Int

namespace LinuxCodeDemos.TestTouch

-- ============================================================================
-- `ts_read`
-- ============================================================================

/-- `struct input_event`, with its `struct timeval` as seconds and microseconds. -/
structure InputEvent where
  time : Int × Int
  type : Nat
  code : Nat
  value : Int
  deriving DecidableEq, Repr

/-- `Tts_sample`. -/
structure Sample where
  x : Int
  y : Int
  pressure : Nat
  tv : Int × Int
  deriving DecidableEq, Repr

def evSyn : Nat := 0x00
def evAbs : Nat := 0x03
def absX : Nat := 0x00
def absY : Nat := 0x01
def absPressure : Nat := 0x18

def sizeofInputEvent : Nat := 24

/-- What a `read` on the device comes to. -/
inductive Read where
  | whole (ev : InputEvent)
  | short (n : Fin sizeofInputEvent)
  | failed
  deriving DecidableEq, Repr

/-- The return value of `read`. -/
def Read.ret : Read → Int
  | .whole _ => sizeofInputEvent
  | .short n => n.val
  | .failed => -1

/-- `ret < sizeof(struct input_event)`: `ret` is converted to `size_t`. -/
def Read.lessThanSize (r : Read) : Bool := (r.ret % 2 ^ 64).toNat < sizeofInputEvent

/-- The globals `current_x`, `current_y` and `current_p`, an `unsigned int`. -/
structure Current where
  x : Int
  y : Int
  p : Nat
  deriving DecidableEq, Repr

/-- The variables of the loop: the samples stored are `total` in number. -/
structure Loop where
  current : Current
  ev : InputEvent
  samples : List Sample
  deriving DecidableEq, Repr

/-- The event in `ev` behind a read.  After fewer bytes it is not looked at. -/
def Read.into (r : Read) (ev : InputEvent) : InputEvent :=
  match r with
  | .whole ev' => ev'
  | _ => ev

/-- `current_x`, `current_y` and `current_p` behind an event. -/
def Current.follow (c : Current) (ev : InputEvent) : Current :=
  if ev.type = evAbs then
    if ev.code = absX then { c with x := ev.value }
    else if ev.code = absY then { c with y := ev.value }
    else if ev.code = absPressure then { c with p := (ev.value % 2 ^ 32).toNat }
    else c
  else c

/-- The `switch` of the loop. -/
def Loop.handle (s : Loop) : Loop :=
  if s.ev.type = evSyn then
    { s with samples := s.samples ++ [⟨s.current.x, s.current.y, s.current.p, s.ev.time⟩] }
  else { s with current := s.current.follow s.ev }

/-- What a call has come to: its reads, and what it returned if it has. -/
structure Call where
  loop : Loop
  taken : Nat
  returned : Option Int
  deriving DecidableEq, Repr

/-- The loop of `ts_read` on the results that `read` gives. -/
def tsLoop (nr : Int) : List Read → Loop → Call
  | [], s => ⟨s, 0, if (s.samples.length : Int) < nr then none else some s.samples.length⟩
  | r :: reads, s =>
      if (s.samples.length : Int) < nr then
        if r.lessThanSize then ⟨s, 1, some (-1)⟩
        else
          let c := tsLoop nr reads { s with ev := r.into s.ev }.handle
          { c with taken := c.taken + 1 }
      else ⟨s, 0, some s.samples.length⟩

/-- `ts_read`.  `ev` is what the local variable holds before anything is read into it. -/
def tsRead (tsFd : Int) (current : Current) (ev : InputEvent) (nr : Int) (reads : List Read) :
    Call :=
  if tsFd = -1 then ⟨⟨current, ev, []⟩, 0, some (-1)⟩ else tsLoop nr reads ⟨current, ev, []⟩

-- ============================================================================
-- The samples of some events
-- ============================================================================

/-- The events among the results. -/
def eventsOf (reads : List Read) : List InputEvent :=
  reads.filterMap fun r =>
    match r with
    | .whole ev => some ev
    | _ => none

/-- The last value of an axis. -/
def lastAbs (code : Nat) (events : List InputEvent) : Option Int :=
  ((events.filter fun ev => ev.type = evAbs ∧ ev.code = code).getLast?).map (·.value)

/-- The values behind some events: the last of each axis, or the one from before. -/
def latest (current : Current) (events : List InputEvent) : Current :=
  { x := (lastAbs absX events).getD current.x
    y := (lastAbs absY events).getD current.y
    p := ((lastAbs absPressure events).map fun v => (v % 2 ^ 32).toNat).getD current.p }

/-- What an event adds to the samples. -/
def synced (c : Current) (ev : InputEvent) : List Sample :=
  if ev.type = evSyn then [⟨c.x, c.y, c.p, ev.time⟩] else []

/-- One sample for each `EV_SYN` event, with the latest values of the events before it. -/
def samplesOf (current : Current) (before : List InputEvent) : List InputEvent → List Sample
  | [] => []
  | ev :: rest => synced (latest current before) ev ++ samplesOf current (before ++ [ev]) rest

/-- Whether a read gave a whole event. -/
def Read.IsWhole (r : Read) : Prop := ∃ ev, r = .whole ev

/-- What a call is to do with the results it takes: the samples are those of the events, and a read
    that gives no whole event ends the call with -1. -/
structure Faithful (current : Current) (reads : List Read) (c : Call) : Prop where
  samples : c.loop.samples = samplesOf current [] (eventsOf (reads.take c.taken))
  ends : ∀ i r, reads[i]? = some r → i < c.taken → ¬ r.IsWhole →
    i + 1 = c.taken ∧ c.returned = some (-1)

/-- A read fails, with whole events and fewer than `nr` of type `EV_SYN` before it. -/
def FailedRead (nr : Int) (reads : List Read) : Prop :=
  ∃ i, reads[i]? = some .failed ∧ (∀ r ∈ reads.take i, r.IsWhole) ∧
    (((eventsOf (reads.take i)).countP fun ev => ev.type = evSyn : Nat) : Int) < nr

-- ============================================================================
-- The loop
-- ============================================================================

section Values

variable {current : Current} {events : List InputEvent}

theorem lastAbs_snoc (code : Nat) (events : List InputEvent) (ev : InputEvent) :
    lastAbs code (events ++ [ev])
      = if ev.type = evAbs ∧ ev.code = code then some ev.value else lastAbs code events := by
  rw [lastAbs, List.filter_append]
  by_cases h : ev.type = evAbs ∧ ev.code = code
  · rw [if_pos h, List.filter_cons_of_pos (by simpa using h), List.filter_nil, List.getLast?_concat]
    rfl
  · rw [if_neg h, List.filter_cons_of_neg (by simpa using h), List.filter_nil, List.append_nil]
    rfl

/-- The globals follow the latest values. -/
theorem latest_snoc (ev : InputEvent) :
    latest current (events ++ [ev]) = (latest current events).follow ev := by
  simp only [latest, lastAbs_snoc, Current.follow]
  by_cases htype : ev.type = evAbs
  · by_cases hx : ev.code = absX
    · simp [htype, hx, absX, absY, absPressure]
    · by_cases hy : ev.code = absY
      · simp [htype, hy, absX, absY, absPressure]
      · by_cases hp : ev.code = absPressure
        · simp [htype, hp, absX, absY, absPressure]
        · simp [htype, hx, hy, hp]
  · simp [htype]

end Values

section Loops

variable {nr : Int} {r : Read} {reads : List Read} {s : Loop} {ev : InputEvent}

theorem lessThanSize_whole : (Read.whole ev).lessThanSize = false := rfl

theorem lessThanSize_short (n : Fin sizeofInputEvent) : (Read.short n).lessThanSize = true := by
  revert n
  decide

/-- The slip: as a `size_t`, -1 is no less than the size. -/
theorem lessThanSize_failed : Read.failed.lessThanSize = false := by
  decide

theorem tsLoop_full (h : ¬ (s.samples.length : Int) < nr) :
    tsLoop nr reads s = ⟨s, 0, some s.samples.length⟩ := by
  cases reads with
  | nil => rw [tsLoop, if_neg h]
  | cons r reads => rw [tsLoop, if_neg h]

theorem tsLoop_cons (h : (s.samples.length : Int) < nr) (hsize : r.lessThanSize = false) :
    (tsLoop nr (r :: reads) s).loop
        = (tsLoop nr reads { s with ev := r.into s.ev }.handle).loop ∧
      (tsLoop nr (r :: reads) s).taken
        = (tsLoop nr reads { s with ev := r.into s.ev }.handle).taken + 1 ∧
      (tsLoop nr (r :: reads) s).returned
        = (tsLoop nr reads { s with ev := r.into s.ev }.handle).returned := by
  rw [tsLoop, if_pos h, hsize]
  exact ⟨rfl, rfl, rfl⟩

/-- A loop that makes no read does not fail. -/
theorem tsLoop_returned (h : (tsLoop nr reads s).taken = 0) :
    (tsLoop nr reads s).returned ≠ some (-1) := by
  by_cases hfull : (s.samples.length : Int) < nr
  · cases reads with
    | nil =>
        rw [tsLoop, if_pos hfull]
        exact fun heq => (by cases heq)
    | cons r reads =>
        rw [tsLoop, if_pos hfull] at h
        split at h
        · exact absurd h Nat.one_ne_zero
        · exact absurd h (Nat.succ_ne_zero _)
  · rw [tsLoop_full hfull]
    intro heq
    have hlen : (s.samples.length : Int) = -1 := Option.some.inj heq
    omega

theorem handle_samples (s : Loop) (ev : InputEvent) :
    ({ s with ev := ev }.handle).samples = s.samples ++ synced s.current ev := by
  rw [Loop.handle, synced]
  split
  · rfl
  · exact (List.append_nil _).symm

theorem handle_current (s : Loop) (ev : InputEvent) :
    ({ s with ev := ev }.handle).current = s.current.follow ev := by
  rw [Loop.handle]
  split
  · next h =>
    have htype : ev.type ≠ evAbs := fun habs => absurd (h.symm.trans habs) (by decide)
    rw [Current.follow, if_neg htype]
  · rfl

theorem failedRead_short (n : Fin sizeofInputEvent) : ¬ FailedRead nr (.short n :: reads) := by
  rintro ⟨i, hfailed, hwhole, -⟩
  cases i with
  | zero => cases hfailed
  | succ i =>
      obtain ⟨ev, hev⟩ := hwhole _ (List.mem_cons_self ..)
      cases hev

theorem failedRead_failed (h : 0 < nr) : FailedRead nr (.failed :: reads) :=
  ⟨0, rfl, fun _ hr => absurd hr List.not_mem_nil, h⟩

theorem failedRead_none (h : nr ≤ 0) : ¬ FailedRead nr reads := by
  rintro ⟨i, -, -, hcount⟩
  omega

theorem countP_whole (ev : InputEvent) (c : Current) (reads : List Read) :
    (eventsOf (.whole ev :: reads)).countP (fun ev => ev.type = evSyn)
      = (eventsOf reads).countP (fun ev => ev.type = evSyn) + (synced c ev).length := by
  show (ev :: eventsOf reads).countP _ = _
  rw [List.countP_cons, synced]
  by_cases h : ev.type = evSyn
  · simp [h]
  · simp [h]

theorem failedRead_whole (c : Current) :
    FailedRead nr (.whole ev :: reads) ↔ FailedRead (nr - (synced c ev).length) reads := by
  refine ⟨?_, ?_⟩
  · rintro ⟨i, hfailed, hwhole, hcount⟩
    cases i with
    | zero => cases hfailed
    | succ i =>
        rw [List.take_succ_cons] at hwhole hcount
        rw [countP_whole ev c] at hcount
        exact ⟨i, hfailed, fun r hr => hwhole r (List.mem_cons_of_mem _ hr), by omega⟩
  · rintro ⟨i, hfailed, hwhole, hcount⟩
    refine ⟨i + 1, hfailed, ?_, ?_⟩
    · rw [List.take_succ_cons]
      intro r hr
      rcases List.mem_cons.mp hr with rfl | hr
      · exact ⟨ev, rfl⟩
      · exact hwhole r hr
    · rw [List.take_succ_cons, countP_whole ev c]
      omega

/-- `Faithful` in the middle of a call, behind the events of `before`. -/
def FaithfulFrom (current : Current) (before : List InputEvent) (s : Loop) (reads : List Read)
    (c : Call) : Prop :=
  c.loop.samples = s.samples ++ samplesOf current before (eventsOf (reads.take c.taken)) ∧
    ∀ i r, reads[i]? = some r → i < c.taken → ¬ r.IsWhole →
      i + 1 = c.taken ∧ c.returned = some (-1)

/-- A call that makes no further read. -/
theorem faithfulFrom_still {current : Current} {before : List InputEvent} {ret : Option Int} :
    FaithfulFrom current before s reads ⟨s, 0, ret⟩ :=
  ⟨(List.append_nil _).symm, fun i _ _ hi => absurd hi (Nat.not_lt_zero i)⟩

/-- An event is taken and the call goes on. -/
theorem faithfulFrom_whole {current : Current} {before : List InputEvent} {c c' : Call}
    (hcurrent : s.current = latest current before) (hloop : c.loop = c'.loop)
    (htaken : c.taken = c'.taken + 1) (hreturned : c.returned = c'.returned) :
    FaithfulFrom current before s (.whole ev :: reads) c ↔
      FaithfulFrom current (before ++ [ev]) { s with ev := ev }.handle reads c' := by
  have hsamples : samplesOf current before (eventsOf ((Read.whole ev :: reads).take c.taken))
      = synced s.current ev
        ++ samplesOf current (before ++ [ev]) (eventsOf (reads.take c'.taken)) := by
    rw [htaken, hcurrent]
    rfl
  rw [FaithfulFrom, FaithfulFrom, hsamples, handle_samples, hloop, List.append_assoc, htaken,
    hreturned]
  refine and_congr_right fun _ =>
    ⟨fun hends i r hr hi hwhole => ?_, fun hends i r hr hi hwhole => ?_⟩
  · obtain ⟨hlast, hret⟩ := hends (i + 1) r hr (by omega) hwhole
    exact ⟨by omega, hret⟩
  · cases i with
    | zero =>
        cases hr
        exact absurd ⟨ev, rfl⟩ hwhole
    | succ i =>
        obtain ⟨hlast, hret⟩ := hends i r hr (by omega) hwhole
        exact ⟨by omega, hret⟩

/-- A short read ends the call. -/
theorem faithfulFrom_short {current : Current} {before : List InputEvent}
    (n : Fin sizeofInputEvent) :
    FaithfulFrom current before s (.short n :: reads) ⟨s, 1, some (-1)⟩ := by
  refine ⟨(List.append_nil _).symm, fun i r _ hi _ => ⟨?_, rfl⟩⟩
  show i + 1 = 1
  have hlt : i < 1 := hi
  omega

/-- The samples are those of the events exactly if no read fails while the call goes on. -/
theorem faithfulFrom_iff {current : Current} :
    ∀ (reads : List Read) (before : List InputEvent) (s : Loop),
      s.current = latest current before →
      (FaithfulFrom current before s reads (tsLoop nr reads s) ↔
        ¬ FailedRead (nr - s.samples.length) reads) := by
  intro reads
  induction reads with
  | nil =>
      intro before s _
      refine iff_of_true faithfulFrom_still ?_
      rintro ⟨i, hfailed, -⟩
      cases hfailed
  | cons r reads ih =>
      intro before s hcurrent
      by_cases hroom : (s.samples.length : Int) < nr
      · cases r with
        | whole ev =>
            obtain ⟨hloop, htaken, hreturned⟩ :=
              @tsLoop_cons nr (.whole ev) reads s hroom lessThanSize_whole
            have hlatest :
                { s with ev := ev }.handle.current = latest current (before ++ [ev]) := by
              rw [handle_current, hcurrent, latest_snoc]
            have hleft : nr - s.samples.length - (synced s.current ev).length
                = nr - ({ s with ev := ev }.handle.samples.length : Int) := by
              rw [handle_samples, List.length_append]
              omega
            rw [faithfulFrom_whole hcurrent hloop htaken hreturned, failedRead_whole s.current,
              hleft]
            exact ih (before ++ [ev]) _ hlatest
        | short n =>
            rw [tsLoop, if_pos hroom, lessThanSize_short, if_pos rfl]
            exact iff_of_true (faithfulFrom_short n) (failedRead_short n)
        | failed =>
            obtain ⟨hloop, htaken, hreturned⟩ :=
              @tsLoop_cons nr .failed reads s hroom lessThanSize_failed
            refine iff_of_false ?_ (not_not.mpr (failedRead_failed (by omega)))
            rintro ⟨-, hends⟩
            obtain ⟨hlast, hret⟩ := hends 0 .failed rfl (by omega) (by rintro ⟨ev, hev⟩; cases hev)
            exact tsLoop_returned (by omega) (hreturned.symm.trans hret)
      · rw [tsLoop_full hroom]
        exact iff_of_true faithfulFrom_still (failedRead_none (by omega))

end Loops

-- ============================================================================
-- The call
-- ============================================================================

/-- For every sequence of results, every `nr` and whatever `ev` and the globals hold before, the
    samples of `ts_read` are those of the events it read, and a read without a whole event ends the
    call with -1, exactly if no read of the call fails: none is made, or none of the results before
    a short read and before the `nr`-th `EV_SYN` is -1. -/
theorem tsRead_faithful_iff (tsFd : Int) (current : Current) (ev : InputEvent) (nr : Int)
    (reads : List Read) :
    Faithful current reads (tsRead tsFd current ev nr reads) ↔
      tsFd = -1 ∨ ¬ FailedRead nr reads := by
  rw [tsRead]
  split
  · next hclosed =>
    exact iff_of_true ⟨rfl, fun i _ _ hi => absurd hi (Nat.not_lt_zero i)⟩ (.inl hclosed)
  · next hopen =>
    have hiff := @faithfulFrom_iff nr current reads [] ⟨current, ev, []⟩ rfl
    rw [List.length_nil, Int.natCast_zero, Int.sub_zero] at hiff
    rw [or_iff_right hopen, ← hiff]
    exact ⟨fun h => ⟨h.samples, h.ends⟩, fun h => ⟨h.1, h.2⟩⟩

/-- A sample is read and then nothing is there: the sample is stored once more, and the call returns
    2 for the one event. -/
theorem tsRead_again :
    tsRead 3 ⟨-1, -1, 0⟩ ⟨(0, 0), evAbs, absX, 0⟩ 2 [.whole ⟨(7, 0), evSyn, 0, 0⟩, .failed]
        = ⟨⟨⟨-1, -1, 0⟩, ⟨(7, 0), evSyn, 0, 0⟩,
            [⟨-1, -1, 0, (7, 0)⟩, ⟨-1, -1, 0, (7, 0)⟩]⟩, 2, some 2⟩ ∧
      ¬ Faithful ⟨-1, -1, 0⟩ [.whole ⟨(7, 0), evSyn, 0, 0⟩, .failed]
        (tsRead 3 ⟨-1, -1, 0⟩ ⟨(0, 0), evAbs, absX, 0⟩ 2
          [.whole ⟨(7, 0), evSyn, 0, 0⟩, .failed]) := by
  refine ⟨by decide, fun h => ?_⟩
  have hends := h.ends 1 .failed rfl (by decide) (by rintro ⟨ev, hev⟩; cases hev)
  exact absurd hends.2 (by decide)

end LinuxCodeDemos.TestTouch
