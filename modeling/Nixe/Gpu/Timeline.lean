import Nixe.Effect.Machine
import Nixe.Effect.Word

/-!
# Guest syncpoint timelines

`synchronization.rs`: a wrapping 32-bit counter with reservations of future increments. Behind the
counter the timeline keeps positions that do not wrap; the counter shows the position modulo
`2 ^ 32`.

## The invariant

The outstanding reservations, oldest first, are adjacent intervals from the completed position to
the reserved one. Together they are shorter than half of the counter's range, which is what makes
the order of two values of the counter that of their positions.
-/

namespace Nixe.Gpu

/-! ## Values of the counter -/

abbrev GuestSyncpointId := Nat

/-- `GuestSyncpointValue` -/
abbrev SyncpointValue := BitVec 32

def ambiguousDistance : BitVec 32 := 1 <<< 31

def maxOutstandingDistance : Nat := 2 ^ 31 - 1

structure SyncpointComparisonError where
  left : SyncpointValue
  right : SyncpointValue
  deriving DecidableEq, Repr

/-- `GuestSyncpointValue::checked_cmp` -/
def checkedCmp (self other : SyncpointValue) : Except SyncpointComparisonError Ordering :=
  let distance := self - other
  if distance = 0 then .ok .eq
  else if distance = ambiguousDistance then .error ⟨self, other⟩
  else if distance < ambiguousDistance then .ok .gt
  else .ok .lt

/-- `GuestSyncpointValue::has_reached` -/
def hasReached (self threshold : SyncpointValue) : Bool :=
  (self - threshold) &&& ambiguousDistance = 0

structure GuestTimelinePoint where
  syncpoint : GuestSyncpointId
  value : SyncpointValue
  deriving DecidableEq, Repr

/-! ## Reservations -/

abbrev TimelineOwnerId := Nat

abbrev TimelineInstanceId := Nat

structure ReservedTimelinePoint where
  syncpoint : GuestSyncpointId
  instanceId : TimelineInstanceId
  reservation : Nat
  owner : TimelineOwnerId
  increments : BitVec 32
  logicalPosition : Nat
  point : GuestTimelinePoint
  deriving DecidableEq, Repr

structure OwnerMismatch where
  expected : TimelineOwnerId
  observed : TimelineOwnerId
  deriving DecidableEq, Repr

inductive TimelineReservationError where
  | wrongOwner (mismatch : OwnerMismatch)
  | zeroIncrements
  | windowExhausted (outstanding : Nat) (requested : BitVec 32)
  | logicalPositionExhausted
  | reservationIdentityExhausted
  | resourceExhausted
  deriving DecidableEq, Repr

inductive TimelineAdvanceError where
  | wrongOwner (mismatch : OwnerMismatch)
  | wrongSyncpoint (expected observed : GuestSyncpointId)
  | wrongInstance (expected observed : TimelineInstanceId)
  | unknownReservation (reservation : Nat)
  | outOfOrder (expected observed : Nat)
  deriving DecidableEq, Repr

inductive TimelineIncrementError where
  | wrongOwner (mismatch : OwnerMismatch)
  | pendingReservation (reservation : Nat)
  | reservation (error : TimelineReservationError)
  | advance (error : TimelineAdvanceError)
  deriving DecidableEq, Repr

/-! ## The timeline -/

structure GuestTimeline where
  syncpoint : GuestSyncpointId
  instanceId : TimelineInstanceId
  owner : TimelineOwnerId
  initialValue : SyncpointValue
  currentPosition : Nat
  reservedPosition : Nat
  nextReservation : Nat
  reservations : List ReservedTimelinePoint
  deriving DecidableEq, Repr

namespace GuestTimeline

def new (syncpoint : GuestSyncpointId) (instanceId : TimelineInstanceId) (owner : TimelineOwnerId)
    (initialValue : SyncpointValue) : GuestTimeline :=
  { syncpoint, instanceId, owner, initialValue
    currentPosition := 0, reservedPosition := 0, nextReservation := 1, reservations := [] }

variable (t : GuestTimeline)

def pointAt (logicalPosition : Nat) : GuestTimelinePoint :=
  ⟨t.syncpoint, t.initialValue + BitVec.ofNat 32 logicalPosition⟩

def currentPoint : GuestTimelinePoint := t.pointAt t.currentPosition

/-- The reserved position is never behind the current one, so the difference does not wrap. -/
def outstandingIncrements : Nat := t.reservedPosition - t.currentPosition

/-- `GuestTimeline::has_reached` -/
def reached (threshold : SyncpointValue) : Bool :=
  hasReached t.currentPoint.value threshold

/-- The state after a successful reservation. -/
def push (point : ReservedTimelinePoint) : GuestTimeline :=
  { t with
    reservedPosition := point.logicalPosition
    nextReservation := point.reservation + 1
    reservations := t.reservations ++ [point] }

/-- The state after the oldest reservation has been completed. -/
def pop (completed : ReservedTimelinePoint) : GuestTimeline :=
  { t with
    currentPosition := completed.logicalPosition
    reservations := t.reservations.tail }

/-- The reservation that `reserve` makes. -/
def nextPoint (increments : BitVec 32) : ReservedTimelinePoint :=
  { syncpoint := t.syncpoint
    instanceId := t.instanceId
    reservation := t.nextReservation
    owner := t.owner
    increments
    logicalPosition := t.reservedPosition + increments.toNat
    point := t.pointAt (t.reservedPosition + increments.toNat) }

open Method in
/-- `reserve`; `room` says whether the host has memory for one more entry of the queue. -/
def reserve (owner : TimelineOwnerId) (increments : BitVec 32) (room : Bool) :
    Method TimelineReservationError GuestTimeline ReservedTimelinePoint := do
  let t ← read id
  failIf (owner ≠ t.owner) (.wrongOwner ⟨t.owner, owner⟩)
  failIf (increments = 0) .zeroIncrements
  failIf (maxOutstandingDistance < t.outstandingIncrements + increments.toNat)
    (.windowExhausted t.outstandingIncrements increments)
  let _ ← okOr (checkedAdd t.reservedPosition increments.toNat) .logicalPositionExhausted
  let _ ← okOr (checkedAdd t.nextReservation 1) .reservationIdentityExhausted
  failIf (room = false) .resourceExhausted
  update fun t ↦ t.push (t.nextPoint increments)
  return t.nextPoint increments

/-- `validate_advance` -/
def validateAdvance (owner : TimelineOwnerId) (completed : ReservedTimelinePoint) :
    Except TimelineAdvanceError Unit :=
  if owner ≠ t.owner then .error (.wrongOwner ⟨t.owner, owner⟩)
  else if completed.syncpoint ≠ t.syncpoint then
    .error (.wrongSyncpoint t.syncpoint completed.syncpoint)
  else if completed.instanceId ≠ t.instanceId then
    .error (.wrongInstance t.instanceId completed.instanceId)
  else if completed.owner ≠ owner then .error (.wrongOwner ⟨owner, completed.owner⟩)
  else
    match t.reservations with
    | [] => .error (.unknownReservation completed.reservation)
    | next :: _ =>
      if next.reservation ≠ completed.reservation ∨ next ≠ completed then
        if completed ∈ t.reservations then
          .error (.outOfOrder next.reservation completed.reservation)
        else .error (.unknownReservation completed.reservation)
      else .ok ()

open Method in
def advance (owner : TimelineOwnerId) (completed : ReservedTimelinePoint) :
    Method TimelineAdvanceError GuestTimeline GuestTimelinePoint := do
  let t ← read id
  lift (t.validateAdvance owner completed)
  update fun t ↦ t.pop completed
  read currentPoint

open Method in
/-- `increment_immediate` -/
def incrementImmediate (owner : TimelineOwnerId) (room : Bool) :
    Method TimelineIncrementError GuestTimeline GuestTimelinePoint := do
  let t ← read id
  failIf (owner ≠ t.owner) (.wrongOwner ⟨t.owner, owner⟩)
  match t.reservations with
  | pending :: _ => fail (.pendingReservation pending.reservation)
  | [] =>
    let reservation ← mapErr .reservation (reserve owner 1 room)
    mapErr .advance (advance owner reservation)

end GuestTimeline

/-! ## Order of the values -/

theorem and_ambiguousDistance_eq_zero_iff {d : BitVec 32} :
    d &&& ambiguousDistance = 0 ↔ d.toNat < 2 ^ 31 := by
  have hpower : ambiguousDistance = BitVec.twoPow 32 31 := by decide
  have hmsb : d.getLsbD 31 = d.msb := by rw [BitVec.msb_eq_getLsbD_last]
  rw [hpower, BitVec.and_twoPow, hmsb, BitVec.msb_eq_decide]
  by_cases h : 2 ^ 31 ≤ d.toNat
  · simp [h]
  · simp [h, Nat.not_le.mp h]

/-- The values of two positions that are `distance` apart. -/
theorem value_sub_value (v : SyncpointValue) (position distance : Nat) :
    (v + BitVec.ofNat 32 (position + distance)) - (v + BitVec.ofNat 32 position) =
      BitVec.ofNat 32 distance := by
  rw [BitVec.ofNat_add]
  generalize BitVec.ofNat 32 position = a
  generalize BitVec.ofNat 32 distance = b
  bv_omega

theorem value_sub_value_of_behind (v : SyncpointValue) (position distance : Nat) :
    (v + BitVec.ofNat 32 position) - (v + BitVec.ofNat 32 (position + distance)) =
      -BitVec.ofNat 32 distance := by
  rw [BitVec.ofNat_add]
  generalize BitVec.ofNat 32 position = a
  generalize BitVec.ofNat 32 distance = b
  bv_omega

variable {v : SyncpointValue}

/-- The sign bit of the distance of two values is the order of their positions. -/
theorem toNat_value_sub {p q : Nat} (hp : p < q + 2 ^ 31) (hq : q < p + 2 ^ 31) :
    ((v + BitVec.ofNat 32 p) - (v + BitVec.ofNat 32 q)).toNat =
      if q ≤ p then p - q else 2 ^ 32 - (q - p) := by
  by_cases h : q ≤ p
  · obtain ⟨k, rfl⟩ := Nat.exists_eq_add_of_le h
    rw [value_sub_value, BitVec.toNat_ofNat, if_pos h, Nat.add_sub_cancel_left]
    omega
  · obtain ⟨k, rfl⟩ := Nat.exists_eq_add_of_le (Nat.le_of_not_le h)
    rw [value_sub_value_of_behind, BitVec.toNat_neg, BitVec.toNat_ofNat, if_neg h,
      Nat.add_sub_cancel_left]
    omega

/-- **Reaching is the order of the positions**, within half of the counter's range. -/
theorem hasReached_value_iff {p q : Nat} (hp : p < q + 2 ^ 31) (hq : q < p + 2 ^ 31) :
    hasReached (v + BitVec.ofNat 32 p) (v + BitVec.ofNat 32 q) = true ↔ q ≤ p := by
  rw [hasReached, decide_eq_true_eq, and_ambiguousDistance_eq_zero_iff, toNat_value_sub hp hq]
  split <;> omega

/-- **The comparison is that of the positions**, within half of the counter's range. -/
theorem checkedCmp_value {p q : Nat} (hp : p < q + 2 ^ 31) (hq : q < p + 2 ^ 31) :
    checkedCmp (v + BitVec.ofNat 32 p) (v + BitVec.ofNat 32 q) = .ok (compare p q) := by
  have hdistance := toNat_value_sub (v := v) hp hq
  rw [checkedCmp]
  generalize (v + BitVec.ofNat 32 p) - (v + BitVec.ofNat 32 q) = d at hdistance
  have hzero : d = 0 ↔ d.toNat = 0 := by rw [← BitVec.toNat_inj]; rfl
  have hhalf : d = ambiguousDistance ↔ d.toNat = 2 ^ 31 := by rw [← BitVec.toNat_inj]; rfl
  have hlt : d < ambiguousDistance ↔ d.toNat < 2 ^ 31 := by rw [BitVec.lt_def]; rfl
  simp only [hzero, hhalf, hlt, hdistance]
  rcases Nat.lt_trichotomy p q with h | rfl | h
  · rw [if_neg (Nat.not_le.mpr h), if_neg (by omega), if_neg (by omega), if_neg (by omega),
      Nat.compare_eq_lt.mpr h]
  · rw [if_pos (Nat.le_refl p), if_pos (Nat.sub_self p), Nat.compare_eq_eq.mpr rfl]
  · rw [if_pos (Nat.le_of_lt h), if_neg (by omega), if_neg (by omega), if_pos (by omega),
      Nat.compare_eq_gt.mpr h]

namespace GuestTimeline

open Method List

/-! ## What the methods do -/

theorem reserve_spec (owner : TimelineOwnerId) (increments : BitVec 32) (room : Bool)
    (t : GuestTimeline) :
    wp (reserve owner increments room)
      ⟨fun r t' ↦ owner = t.owner ∧ increments ≠ 0 ∧
          t.outstandingIncrements + increments.toNat ≤ maxOutstandingDistance ∧
          r = t.nextPoint increments ∧ t' = t.push r,
        fun _ t' ↦ t' = t, False⟩ t := by
  simp only [reserve, wp_rules, id_eq, ne_eq]
  refine ⟨fun _ ↦ trivial, fun howner ↦ ⟨fun _ ↦ trivial, fun hzero ↦ ⟨fun _ ↦ trivial,
    fun hwindow ↦ ⟨fun _ _ ↦ ⟨fun _ _ ↦ ⟨fun _ ↦ trivial, fun _ ↦ ?_⟩, fun _ ↦ trivial⟩,
      fun _ ↦ trivial⟩⟩⟩⟩
  exact ⟨not_not.mp howner, hzero, Nat.not_lt.mp hwindow, trivial, trivial⟩

variable {completed : ReservedTimelinePoint} {rs : List ReservedTimelinePoint}

theorem validateAdvance_eq_ok_iff {t : GuestTimeline} {owner : TimelineOwnerId} {u : Unit} :
    t.validateAdvance owner completed = .ok u ↔
      owner = t.owner ∧ completed.syncpoint = t.syncpoint ∧
        completed.instanceId = t.instanceId ∧ completed.owner = owner ∧
        t.reservations.head? = some completed := by
  fun_cases validateAdvance t owner completed
  case case6 next _ _ hne _ | case7 next _ _ hne _ =>
    have hnext : next ≠ completed := by
      rintro rfl
      simp at hne
    simp_all
  all_goals simp_all

theorem advance_spec (owner : TimelineOwnerId) (completed : ReservedTimelinePoint)
    (t : GuestTimeline) :
    wp (advance owner completed)
      ⟨fun p t' ↦ owner = t.owner ∧ completed.owner = owner ∧
          t.reservations.head? = some completed ∧ t' = t.pop completed ∧ p = t'.currentPoint,
        fun _ t' ↦ t' = t, False⟩ t := by
  simp only [advance, wp_rules, id_eq]
  refine ⟨fun _ hvalid ↦ ?_, fun _ _ ↦ trivial⟩
  obtain ⟨howner, -, -, hcompleted, hhead⟩ := validateAdvance_eq_ok_iff.mp hvalid
  exact ⟨howner, hcompleted, hhead, trivial, trivial⟩

/-- The oldest reservation of the owner can be completed. -/
theorem advance_nextPoint {t : GuestTimeline} (h : t.reservations = []) (increments : BitVec 32) :
    advance t.owner (t.nextPoint increments) (t.push (t.nextPoint increments)) =
      .ok ((t.push (t.nextPoint increments)).pop (t.nextPoint increments)).currentPoint
        ((t.push (t.nextPoint increments)).pop (t.nextPoint increments)) := by
  have hvalid : (t.push (t.nextPoint increments)).validateAdvance t.owner
      (t.nextPoint increments) = .ok () := by
    refine validateAdvance_eq_ok_iff.mpr ⟨rfl, rfl, rfl, rfl, ?_⟩
    simp [push, h]
  refine eq_ok_of_wp ?_
  simp only [advance, wp_rules, id_eq, hvalid]
  exact ⟨fun _ _ ↦ ⟨trivial, trivial⟩, by simp⟩

theorem incrementImmediate_spec (owner : TimelineOwnerId) (room : Bool) (t : GuestTimeline) :
    wp (incrementImmediate owner room)
      ⟨fun p t' ↦ owner = t.owner ∧ t.reservations = [] ∧
          t' = (t.push (t.nextPoint 1)).pop (t.nextPoint 1) ∧ p = t'.currentPoint,
        fun _ t' ↦ t' = t, False⟩ t := by
  simp only [incrementImmediate, wp_rules, id_eq, ne_eq]
  refine ⟨fun _ ↦ trivial, fun howner ↦ ?_⟩
  split
  · exact rfl
  · rename_i hempty
    rw [wp_bind, wp_mapErr]
    refine wp_of_ok (reserve_spec owner 1 room t) ?_
    rintro _ _ ⟨rfl, -, -, rfl, rfl⟩
    exact (wp_mapErr _ _).mpr
      (wp_of_eq_ok (advance_nextPoint hempty 1) ⟨rfl, hempty, rfl, rfl⟩)

/-! ## Adjacent intervals -/

/-- The reservations are adjacent intervals, none of them empty, from `first` to `last`. -/
def Tiles (first : Nat) : List ReservedTimelinePoint → Nat → Prop
  | [], last => first = last
  | r :: rs, last =>
    0 < r.increments.toNat ∧ r.logicalPosition = first + r.increments.toNat ∧
      Tiles r.logicalPosition rs last

theorem Tiles.le {first last : Nat} (h : Tiles first rs last) : first ≤ last := by
  induction rs generalizing first with
  | nil => exact Nat.le_of_eq h
  | cons r rs ih =>
    obtain ⟨-, hposition, h⟩ := h
    have := ih h
    omega

theorem Tiles.append {first middle last : Nat} {rs' : List ReservedTimelinePoint}
    (h : Tiles first rs middle) (h' : Tiles middle rs' last) : Tiles first (rs ++ rs') last := by
  induction rs generalizing first with
  | nil =>
    obtain rfl := h
    exact h'
  | cons r rs ih =>
    obtain ⟨hpos, hposition, h⟩ := h
    exact ⟨hpos, hposition, ih h⟩

/-- What holds of a timeline between its calls. -/
structure Valid (t : GuestTimeline) : Prop where
  tiles : Tiles t.currentPosition t.reservations t.reservedPosition
  window : t.outstandingIncrements < 2 ^ 31
  owned : ∀ r ∈ t.reservations, r.owner = t.owner ∧ r.point = t.pointAt r.logicalPosition
  increasing : t.reservations.Pairwise (·.reservation < ·.reservation)
  issued : ∀ r ∈ t.reservations, r.reservation < t.nextReservation

theorem valid_new (syncpoint : GuestSyncpointId) (instanceId : TimelineInstanceId)
    (owner : TimelineOwnerId) (initialValue : SyncpointValue) :
    (new syncpoint instanceId owner initialValue).Valid where
  tiles := rfl
  window := Nat.two_pow_pos 31
  owned := nofun
  increasing := .nil
  issued := nofun

variable {t : GuestTimeline}

theorem Valid.current_eq_reserved (ht : t.Valid) (h : t.reservations = []) :
    t.currentPosition = t.reservedPosition := by
  have htiles := ht.tiles
  rwa [h] at htiles

theorem Valid.push (ht : t.Valid) {increments : BitVec 32} (hne : increments ≠ 0)
    (hwindow : t.outstandingIncrements + increments.toNat ≤ maxOutstandingDistance) :
    (t.push (t.nextPoint increments)).Valid := by
  have hle := ht.tiles.le
  have hpos : 0 < increments.toNat :=
    Nat.pos_of_ne_zero fun h ↦ hne (BitVec.eq_of_toNat_eq h)
  have htile : Tiles t.reservedPosition [t.nextPoint increments]
      (t.nextPoint increments).logicalPosition := ⟨hpos, rfl, rfl⟩
  refine ⟨ht.tiles.append htile, ?_, ?_, ?_, ?_⟩
  · simp only [outstandingIncrements, maxOutstandingDistance] at hwindow ⊢
    simp only [GuestTimeline.push, nextPoint]
    omega
  · refine forall_mem_append.mpr ⟨ht.owned, forall_mem_singleton.mpr ⟨rfl, rfl⟩⟩
  · refine pairwise_append.mpr ⟨ht.increasing, pairwise_singleton _ _, ?_⟩
    intro r hr r' hr'
    rw [mem_singleton.mp hr']
    exact ht.issued r hr
  · refine forall_mem_append.mpr ⟨fun r hr ↦ ?_, forall_mem_singleton.mpr ?_⟩
    · exact Nat.lt_succ_of_lt (ht.issued r hr)
    · exact Nat.lt_succ_self _

theorem Valid.pop (ht : t.Valid) (hhead : t.reservations.head? = some completed) :
    (t.pop completed).Valid := by
  obtain ⟨rest, hrest⟩ := List.head?_eq_some_iff.mp hhead
  obtain ⟨htiles, hwindow, howned, hincreasing, hissued⟩ := ht
  rw [hrest] at htiles howned hincreasing hissued
  obtain ⟨-, hposition, htiles⟩ := htiles
  have hpop : (t.pop completed).reservations = rest := by
    rw [GuestTimeline.pop, hrest, tail_cons]
  refine ⟨hpop ▸ htiles, ?_, ?_, hpop ▸ hincreasing.tail, ?_⟩
  · simp only [outstandingIncrements, GuestTimeline.pop] at hwindow ⊢
    omega
  · intro r hr
    exact howned r (mem_cons_of_mem _ (hpop ▸ hr))
  · intro r hr
    exact hissued r (mem_cons_of_mem _ (hpop ▸ hr))

end GuestTimeline

/-! ## Calls and their history -/

inductive TimelineCall where
  | incrementImmediate (owner : TimelineOwnerId) (room : Bool)
  | reserve (owner : TimelineOwnerId) (increments : BitVec 32) (room : Bool)
  | advance (owner : TimelineOwnerId) (completed : ReservedTimelinePoint)
  deriving DecidableEq, Repr

inductive TimelineAnswer where
  | point (point : GuestTimelinePoint)
  | reserved (point : ReservedTimelinePoint)
  deriving DecidableEq, Repr

inductive TimelineError where
  | increment (error : TimelineIncrementError)
  | reservation (error : TimelineReservationError)
  | advance (error : TimelineAdvanceError)
  deriving DecidableEq, Repr

open Method in
def GuestTimeline.call : TimelineCall → Method TimelineError GuestTimeline TimelineAnswer
  | .incrementImmediate owner room => do
    return .point (← mapErr .increment (incrementImmediate owner room))
  | .reserve owner increments room => do
    return .reserved (← mapErr .reservation (reserve owner increments room))
  | .advance owner completed => do
    return .point (← mapErr .advance (advance owner completed))

abbrev TimelineEvent := TimelineCall × Except TimelineError TimelineAnswer

/-- The reservation that the call made. -/
def grantedBy : TimelineEvent → Option ReservedTimelinePoint
  | (.reserve .., .ok (.reserved r)) => some r
  | _ => none

/-- The reservation that the call completed. -/
def advancedBy : TimelineEvent → Option ReservedTimelinePoint
  | (.advance _ completed, .ok _) => some completed
  | _ => none

/-- The call was an immediate increment, and it succeeded. -/
def isImmediate : TimelineEvent → Bool
  | (.incrementImmediate .., .ok _) => true
  | _ => false

/-- The increments that the calls completed. -/
def completedBy (es : List TimelineEvent) : Nat :=
  ((es.filterMap advancedBy).map fun r ↦ r.increments.toNat).sum + es.countP isImmediate

namespace GuestTimeline

open Method

/-- The effects of the calls. -/
inductive Effect (t : GuestTimeline) : TimelineEvent → GuestTimeline → Prop
  | fail (call : TimelineCall) (error : TimelineError) : Effect t (call, .error error) t
  | increment (room : Bool) (point : GuestTimelinePoint) (hempty : t.reservations = []) :
      Effect t (.incrementImmediate t.owner room, .ok (.point point))
        ((t.push (t.nextPoint 1)).pop (t.nextPoint 1))
  | reserve (increments : BitVec 32) (room : Bool) (hne : increments ≠ 0)
      (hwindow : t.outstandingIncrements + increments.toNat ≤ maxOutstandingDistance) :
      Effect t (.reserve t.owner increments room, .ok (.reserved (t.nextPoint increments)))
        (t.push (t.nextPoint increments))
  | advance (completed : ReservedTimelinePoint) (point : GuestTimelinePoint)
      (howner : completed.owner = t.owner) (hhead : t.reservations.head? = some completed) :
      Effect t (.advance t.owner completed, .ok (.point point)) (t.pop completed)

theorem call_effect (c : TimelineCall) (t : GuestTimeline) :
    wp (call c)
      ⟨fun a t' ↦ Effect t (c, .ok a) t', fun e t' ↦ Effect t (c, .error e) t', False⟩ t := by
  cases c with
  | incrementImmediate owner room =>
    rw [call, wp_bind, wp_mapErr]
    refine wp_of_wp (incrementImmediate_spec owner room t) ?_ ?_
    · rintro p _ ⟨rfl, hempty, rfl, -⟩
      exact .increment room p hempty
    · rintro e _ rfl
      exact .fail _ _
  | reserve owner increments room =>
    rw [call, wp_bind, wp_mapErr]
    refine wp_of_wp (reserve_spec owner increments room t) ?_ ?_
    · rintro _ _ ⟨rfl, hne, hwindow, rfl, rfl⟩
      exact .reserve increments room hne hwindow
    · rintro e _ rfl
      exact .fail _ _
  | advance owner completed =>
    rw [call, wp_bind, wp_mapErr]
    refine wp_of_wp (advance_spec owner completed t) ?_ ?_
    · rintro p _ ⟨rfl, howner, hhead, rfl, -⟩
      exact .advance completed p howner hhead
    · rintro e _ rfl
      exact .fail _ _

theorem machine_effect {t t' : GuestTimeline} {c : TimelineCall}
    {r : Except TimelineError TimelineAnswer} (h : machine call t c = some (r, t')) :
    Effect t (c, r) t' := by
  rcases machine_eq_some_iff.mp h with ⟨a, rfl, hcall⟩ | ⟨e, rfl, hcall⟩
  · exact ok_of_wp (call_effect c t) hcall
  · exact err_of_wp (call_effect c t) hcall

variable {t t' : GuestTimeline} {e : TimelineEvent} {es : List TimelineEvent}

theorem Effect.valid (h : Effect t e t') (ht : t.Valid) : t'.Valid := by
  cases h with
  | fail call error => exact ht
  | increment room point hempty =>
    have houtstanding : t.outstandingIncrements = 0 := by
      rw [outstandingIncrements, ht.current_eq_reserved hempty, Nat.sub_self]
    refine (ht.push (by decide) ?_).pop ?_
    · rw [houtstanding]
      decide
    · simp [push, hempty]
  | reserve increments room hne hwindow => exact ht.push hne hwindow
  | advance completed point howner hhead => exact ht.pop hhead

/-- A step moves reservations through the queue, oldest first, and completes what it says. -/
theorem Effect.history (h : Effect t e t') (ht : t.Valid) :
    t.reservations ++ (grantedBy e).toList = (advancedBy e).toList ++ t'.reservations ∧
      t'.currentPosition = t.currentPosition +
        (((advancedBy e).map fun r ↦ r.increments.toNat).getD 0 + (isImmediate e).toNat) := by
  cases h with
  | fail call error => exact ⟨by simp [grantedBy, advancedBy], by simp [advancedBy, isImmediate]⟩
  | increment room point hempty =>
    refine ⟨by simp [grantedBy, advancedBy, push, pop, hempty], ?_⟩
    rw [ht.current_eq_reserved hempty]
    rfl
  | reserve increments room hne hwindow =>
    exact ⟨by simp [grantedBy, advancedBy, push], rfl⟩
  | advance completed point howner hhead =>
    obtain ⟨rest, hrest⟩ := List.head?_eq_some_iff.mp hhead
    have htiles := ht.tiles
    rw [hrest] at htiles
    exact ⟨by simp [grantedBy, advancedBy, pop, hrest], htiles.2.1⟩

/-- What a call leaves alone. -/
theorem Effect.fixed (h : Effect t e t') :
    t'.owner = t.owner ∧ t'.syncpoint = t.syncpoint ∧ t'.initialValue = t.initialValue ∧
      t.nextReservation ≤ t'.nextReservation := by
  cases h with
  | fail | advance => exact ⟨rfl, rfl, rfl, Nat.le_refl _⟩
  | increment | reserve => exact ⟨rfl, rfl, rfl, Nat.le_succ _⟩

section

variable (h : (machine call).Run t es t')

include h

theorem run_fixed :
    t'.owner = t.owner ∧ t'.syncpoint = t.syncpoint ∧ t'.initialValue = t.initialValue := by
  induction h with
  | nil => exact ⟨rfl, rfl, rfl⟩
  | cons hstep _ ih =>
    obtain ⟨howner, hsyncpoint, hinitial, -⟩ := (machine_effect hstep).fixed
    exact ⟨ih.1.trans howner, ih.2.1.trans hsyncpoint, ih.2.2.trans hinitial⟩

/-- The reservations made are, in order, those completed and then those outstanding. -/
theorem run_history (ht : t.Valid) :
    t.reservations ++ es.filterMap grantedBy = es.filterMap advancedBy ++ t'.reservations ∧
      t'.currentPosition = t.currentPosition + completedBy es := by
  induction h with
  | nil t => exact ⟨by simp, rfl⟩
  | @cons t u t' c r es hstep _ ih =>
    have heffect := machine_effect hstep
    obtain ⟨hqueue, hposition⟩ := heffect.history ht
    obtain ⟨ihqueue, ihposition⟩ := ih (heffect.valid ht)
    have hcons (f : TimelineEvent → Option ReservedTimelinePoint) :
        ((c, r) :: es).filterMap f = (f (c, r)).toList ++ es.filterMap f := by
      cases hf : f (c, r) <;> simp [hf]
    refine ⟨?_, ?_⟩
    · rw [hcons, hcons, ← List.append_assoc, hqueue, List.append_assoc, ihqueue,
        List.append_assoc]
    · rw [ihposition, hposition, completedBy, completedBy, hcons, List.countP_cons]
      cases advancedBy (c, r) <;> cases isImmediate (c, r) <;> simp <;> omega

/-- Reservations are numbered in the order in which they are made. -/
theorem run_increasing (ht : t.Valid) :
    (t.reservations ++ es.filterMap grantedBy).Pairwise (·.reservation < ·.reservation) ∧
      ∀ r ∈ es.filterMap grantedBy, t.nextReservation ≤ r.reservation := by
  induction h with
  | nil t => exact ⟨by simpa using ht.increasing, by simp⟩
  | @cons t u t' c r es hstep _ ih =>
    have heffect := machine_effect hstep
    obtain ⟨ihpairwise, ihnext⟩ := ih (heffect.valid ht)
    have hnext := heffect.fixed.2.2.2
    cases heffect with
    | fail call error =>
      rw [List.filterMap_cons_none (by cases c <;> rfl)]
      exact ⟨ihpairwise, ihnext⟩
    | increment room point hempty =>
      refine ⟨?_, fun r hr ↦ Nat.le_trans hnext (ihnext r hr)⟩
      rw [hempty]
      exact (List.pairwise_append.mp ihpairwise).2.1
    | reserve increments room hne hwindow =>
      refine ⟨?_, List.forall_mem_cons.mpr ⟨Nat.le_refl _, fun r hr ↦ ?_⟩⟩
      · simpa [push, grantedBy] using ihpairwise
      · exact Nat.le_trans hnext (ihnext r hr)
    | advance completed point howner hhead =>
      obtain ⟨rest, hrest⟩ := List.head?_eq_some_iff.mp hhead
      refine ⟨?_, ihnext⟩
      simp only [pop, hrest, List.tail_cons] at ihpairwise
      rw [hrest]
      refine .cons (fun r hr ↦ ?_) ihpairwise
      rcases List.mem_append.mp hr with hr | hr
      · exact (List.pairwise_cons.mp (hrest ▸ ht.increasing)).1 r hr
      · have hissued := ht.issued completed (hrest ▸ List.mem_cons_self)
        exact Nat.lt_of_lt_of_le hissued (ihnext r hr)

end

end GuestTimeline

/-! ## Timelines over their whole life -/

section

variable {syncpoint : GuestSyncpointId} {instanceId : TimelineInstanceId}
  {owner : TimelineOwnerId} {initialValue : SyncpointValue} {t : GuestTimeline}
  {es : List TimelineEvent}

open Method GuestTimeline

/-- A call that succeeds in completing a reservation is made by the owner of both, and the
reservation is the oldest one. -/
theorem advance_oldest {s t : GuestTimeline} {caller : TimelineOwnerId}
    {completed : ReservedTimelinePoint} {answer : TimelineAnswer}
    (h : machine call s (.advance caller completed) = some (.ok answer, t)) :
    caller = s.owner ∧ completed.owner = caller ∧ s.reservations.head? = some completed := by
  generalize hcall : TimelineCall.advance caller completed = c at h
  cases machine_effect h with
  | increment | reserve => exact nomatch hcall
  | advance _ _ howner hhead =>
    obtain ⟨rfl, rfl⟩ := TimelineCall.advance.inj hcall
    exact ⟨rfl, howner, hhead⟩

/-- **Guest timelines.** Whatever calls are made of a new timeline: the reservations outstanding
are adjacent intervals that fill the distance from the completed to the reserved position, which
stays below `2 ^ 31`; the reservations are completed in the order in which they were made, each of
them once, by their owner; the counter shows the initial value plus the increments completed; a
call that fails changes nothing; and the values of positions less than `2 ^ 31` apart compare as the
positions do. -/
theorem timeline_ordered
    (h : (machine call).Run (GuestTimeline.new syncpoint instanceId owner initialValue) es t) :
    (Tiles t.currentPosition t.reservations t.reservedPosition ∧
      t.reservedPosition - t.currentPosition < 2 ^ 31 ∧
      es.filterMap grantedBy = es.filterMap advancedBy ++ t.reservations ∧
      (es.filterMap grantedBy).Pairwise (·.reservation < ·.reservation)) ∧
    (∀ es₁ es₂ caller completed answer,
      es = es₁ ++ (.advance caller completed, .ok answer) :: es₂ →
      caller = owner ∧ completed.owner = owner ∧
        ∃ s, (machine call).Run (GuestTimeline.new syncpoint instanceId owner initialValue) es₁ s ∧
          s.reservations.head? = some completed) ∧
    t.currentPoint = ⟨syncpoint, initialValue + BitVec.ofNat 32 (completedBy es)⟩ ∧
    (∀ p q, p < q + 2 ^ 31 → q < p + 2 ^ 31 →
      checkedCmp (t.pointAt p).value (t.pointAt q).value = .ok (compare p q) ∧
        (hasReached (t.pointAt p).value (t.pointAt q).value = true ↔ q ≤ p)) ∧
    ∀ c error u, machine call t c = some (.error error, u) → u = t := by
  have hnew := valid_new syncpoint instanceId owner initialValue
  have ht : t.Valid := h.invariant (fun _ _ _ _ hs hu ↦ (machine_effect hu).valid hs) hnew
  obtain ⟨hqueue, hposition⟩ := run_history h hnew
  obtain ⟨-, hsyncpoint, hinitial⟩ := run_fixed h
  refine ⟨⟨ht.tiles, ht.window, hqueue, (run_increasing h hnew).1⟩, ?_, ?_, ?_, ?_⟩
  · rintro es₁ es₂ caller completed answer rfl
    obtain ⟨s, hbefore, hafter⟩ := Machine.Run.append_iff.mp h
    obtain ⟨u, hstep, -⟩ := Machine.Run.cons_iff.mp hafter
    obtain ⟨hcaller, hcompleted, hhead⟩ := advance_oldest hstep
    have howner : caller = owner := hcaller.trans (run_fixed hbefore).1
    exact ⟨howner, hcompleted.trans howner, s, hbefore, hhead⟩
  · rw [currentPoint, pointAt, hposition, hsyncpoint, hinitial]
    simp only [new, Nat.zero_add]
  · intro p q hp hq
    exact ⟨checkedCmp_value hp hq, hasReached_value_iff hp hq⟩
  · intro c error u hu
    cases machine_effect hu with
    | fail => rfl

/-- Two reservations are made just before the counter wraps, and the older one is completed. -/
def wrappingCalls : List TimelineCall :=
  let first := (GuestTimeline.new 5 9 7 0xffffffff).nextPoint 2
  [.reserve 7 2 true, .reserve 7 3 true, .advance 7 first]

theorem timeline_ordered_wrapping :
    ∃ es t, (machine call).Run (GuestTimeline.new 5 9 7 0xffffffff) es t ∧
      t.currentPoint = ⟨5, 0xffffffff + BitVec.ofNat 32 (completedBy es)⟩ ∧
      t.currentPoint.value = 1 ∧ t.reservations.length = 1 := by
  have hexec : ∃ r ∈ (machine call).exec (GuestTimeline.new 5 9 7 0xffffffff) wrappingCalls,
      r.2.currentPoint.value = 1 ∧ r.2.reservations.length = 1 := by decide
  obtain ⟨es, t, hrun, -, hvalue, hlength⟩ := Machine.exists_run_of_exec hexec
  exact ⟨es, t, hrun, (timeline_ordered hrun).2.2.1, hvalue, hlength⟩

end

end Nixe.Gpu
