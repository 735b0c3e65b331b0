import RackmonIoc.CLib.Ring

/-!
# `dbEvent.c`

The event queue of a client: a ring of `EVENTQUESIZE` entries, filled by the threads that post events and
emptied by the event task of the client, which makes the call backs.  A client has one queue here; one with
more subscriptions than fit gets further ones, each of which is used in the same way.

The functions are the parts of the source between lock and unlock, so that the threads interleave by
them; the rounds of the loop of `event_read` are steps of their own, although it keeps the lock over those
without a call back.  A failed assertion, and an access to a null pointer or to a subscription that has
been freed, is `none`.  Left out are the filter chains of a channel, the extra labour of the event task,
and subscriptions that are cancelled by a call back.
-/

namespace RackmonIoc.Event

open CLib

def EVENTSPERQUE : ℕ := 32
/-- the number of queue entries for each event -/
def EVENTENTRIES : ℕ := 4
def EVENTQUESIZE : ℕ := EVENTENTRIES * EVENTSPERQUE

def RNGINC (old : ℕ) : ℕ := ringInc EVENTQUESIZE old

/-- What an event carries: a value with its alarm, or nothing, where the client looks at the record. -/
inductive FieldLog (α : Type) where
  | dbfl_type_val (v : α)
  | dbfl_type_rec
  deriving DecidableEq

def FieldLog.isRec {α : Type} : FieldLog α → Bool
  | dbfl_type_val _ => false
  | dbfl_type_rec => true

/-- An entry of `evque` that is not `EVENTQEMPTY`. -/
inductive Slot (ι : Type) where
  | sub (pevent : ι)
  | canceledEvent
  deriving DecidableEq

/-- A subscription. -/
structure EvSubscrip where
  /-- the number of entries in the queue -/
  npend : ℕ
  /-- the number of events that have replaced another one -/
  nreplace : ℕ
  /-- where the last entry is in `valque` -/
  pLastLog : Option ℕ
  /-- there is a call back -/
  user_sub : Bool
  callBackInProgress : Bool
  deriving DecidableEq

/-- What the event task does: it waits for `ppendsem`, reads the queue, or runs a call back. -/
inductive Task (ι : Type) where
  | waiting
  | reading
  | callBack (pevent : ι)
  deriving DecidableEq

/-- A client with its queue. -/
structure EventUser (ι α : Type) where
  evque : ℕ → Option (Slot ι)
  valque : ℕ → Option (FieldLog α)
  putix : ℕ
  getix : ℕ
  /-- the number of assigned entries -/
  quota : ℕ
  /-- the number of events that are not the first one of their subscription -/
  nDuplicates : ℕ
  nCanceled : ℕ
  flowCtrlMode : Bool
  ppendsem : Bool
  /-- the threads that have still to signal `ppendsem` -/
  signals : ℕ
  task : Task ι
  /-- the subscriptions that are allocated -/
  sub : ι → Option EvSubscrip

section Functions

variable {ι α : Type} [DecidableEq ι]

def db_init_events : EventUser ι α where
  evque := fun _ => none
  valque := fun _ => none
  putix := 0
  getix := 0
  quota := 0
  nDuplicates := 0
  nCanceled := 0
  flowCtrlMode := false
  ppendsem := false
  signals := 0
  task := .waiting
  sub := fun _ => none

def ringSpace (q : EventUser ι α) : ℕ := ringFree EVENTQUESIZE q.evque q.getix q.putix

/-- An assertion. -/
def assert (p : Prop) [Decidable p] : Option Unit := if p then some () else none

def setSub (q : EventUser ι α) (pevent : ι) (s : Option EvSubscrip) : EventUser ι α :=
  { q with sub := Function.update q.sub pevent s }

def setEntry (q : EventUser ι α) (ix : ℕ) (slot : Option (Slot ι)) (log : Option (FieldLog α)) :
    EventUser ι α :=
  { q with evque := Function.update q.evque ix slot, valque := Function.update q.valque ix log }

/-! ### Subscriptions -/

/-- The part of `db_add_event` that takes room in the queue; `pevent` is a free block. -/
def db_add_event (q : EventUser ι α) (pevent : ι) : EventUser ι α :=
  if q.quota + q.nCanceled < EVENTQUESIZE - EVENTENTRIES then
    setSub { q with quota := q.quota + EVENTENTRIES } pevent (some ⟨0, 0, none, true, false⟩)
  else q

/-- Null the entry, without deleting the log. -/
def event_remove (q : EventUser ι α) (index : ℕ) (placeHolder : Option (Slot ι)) :
    Option (EventUser ι α) := do
  match q.evque index with
  | some (.sub pevent) =>
    let s ← q.sub pevent
    let q := setEntry q index placeHolder none
    if s.npend = 1 then
      return setSub q pevent (some { s with pLastLog := none, npend := s.npend - 1 })
    else
      assert (1 < s.npend)
      assert (1 ≤ q.nDuplicates)
      return setSub { q with nDuplicates := q.nDuplicates - 1 } pevent
        (some { s with npend := s.npend - 1 })
  | _ => none

/-- An entry in the loop of `db_cancel_event`. -/
def purgeEntry (pevent : ι) (q : EventUser ι α) (getix : ℕ) (slot : Slot ι) :
    Option (EventUser ι α) :=
  if slot = .sub pevent then do
    assert (q.nCanceled < 65535)
    event_remove { q with nCanceled := q.nCanceled + 1 } getix (some .canceledEvent)
  else some q

/-- The loop of `db_cancel_event`, from the index `getix` on, for `fuel` steps at most. -/
def purge (pevent : ι) : ℕ → EventUser ι α → ℕ → Option (EventUser ι α)
  | 0, _, _ => none
  | fuel + 1, q, getix => do
    match q.evque getix with
    | none => return q
    | some slot =>
      let q ← purgeEntry pevent q getix slot
      let getix := RNGINC getix
      if getix = q.getix then return q else purge pevent fuel q getix

/-- The end of `db_cancel_event`: it waits until no call back is in progress. -/
def cancel_end (q : EventUser ι α) (pevent : ι) : Option (EventUser ι α) := do
  let s ← q.sub pevent
  if s.callBackInProgress then return q
  else return setSub { q with quota := q.quota - EVENTENTRIES } pevent none

def db_cancel_event (q : EventUser ι α) (pevent : ι) : Option (EventUser ι α) := do
  let s ← q.sub pevent
  let q ← purge pevent EVENTQUESIZE (setSub q pevent (some { s with user_sub := false })) q.getix
  let s ← q.sub pevent
  assert (s.npend = 0)
  cancel_end q pevent

/-! ### Events -/

/-- The log of the last event of a subscription that has entries. -/
def last_log (q : EventUser ι α) (s : EvSubscrip) : Option (ℕ × FieldLog α) := do
  let ix ← s.pLastLog
  let log ← q.valque ix
  return (ix, log)

/-- The log takes the place of the last one of the subscription. -/
def replaceLast (q : EventUser ι α) (pevent : ι) (s : EvSubscrip) (ix : ℕ) (pLog : FieldLog α) :
    EventUser ι α :=
  setSub (if (q.valque ix).isSome then setEntry q ix (q.evque ix) (some pLog) else q) pevent
    (some { s with nreplace := s.nreplace + 1 })

/-- The current entry is filled in, and the ring advances.  If it was empty, `ppendsem` has still to be
signalled. -/
def fillEntry (q : EventUser ι α) (pevent : ι) (s : EvSubscrip) (pLog : FieldLog α) :
    EventUser ι α :=
  { setSub (setEntry q q.putix (some (.sub pevent)) (some pLog)) pevent
      (some { s with pLastLog := some q.putix, npend := s.npend + 1 }) with
    nDuplicates := if 0 < s.npend then q.nDuplicates + 1 else q.nDuplicates
    signals := if ringSpace q = EVENTQUESIZE then q.signals + 1 else q.signals
    putix := RNGINC q.putix }

/-- The last event of the subscription is still in the queue, and neither log says more than that the
record has changed. -/
def isDuplicate (q : EventUser ι α) (s : EvSubscrip) (pLog : FieldLog α) : Option Bool :=
  if 0 < s.npend then (last_log q s).map fun x => x.2.isRec && pLog.isRec else some false

/-- An event that is not ignored. -/
def storeEvent (q : EventUser ι α) (pevent : ι) (s : EvSubscrip) (pLog : FieldLog α) :
    Option (EventUser ι α) :=
  if 0 < s.npend ∧ (q.flowCtrlMode ∨ ringSpace q ≤ EVENTSPERQUE) then do
    let ix ← s.pLastLog
    return replaceLast q pevent s ix pLog
  else do
    assert ((q.evque q.putix).isNone)
    return fillEntry q pevent s pLog

def db_queue_event_log (q : EventUser ι α) (pevent : ι) (pLog : FieldLog α) :
    Option (EventUser ι α) := do
  let s ← q.sub pevent
  let ignored ← isDuplicate q s pLog
  if ignored then return q else storeEvent q pevent s pLog

/-! ### The event task -/

/-- `event_read` up to its loop. -/
def event_read (q : EventUser ι α) : EventUser ι α :=
  if q.flowCtrlMode ∧ q.nDuplicates = 0 then { q with task := .waiting }
  else { q with task := .reading }

/-- One step of the loop of `event_read`, with the log that a call back gets. -/
def event_read_next (q : EventUser ι α) : Option (EventUser ι α × Option (ι × FieldLog α)) := do
  match q.evque q.getix with
  | none => return ({ q with task := .waiting }, none)
  | some .canceledEvent =>
    assert (0 < q.nCanceled)
    let q := setEntry q q.getix none none
    return ({ q with getix := RNGINC q.getix, nCanceled := q.nCanceled - 1 }, none)
  | some (.sub pevent) =>
    let pfl := q.valque q.getix
    let q ← event_remove q q.getix none
    let q := { q with getix := RNGINC q.getix }
    let s ← q.sub pevent
    if s.user_sub then
      return (setSub { q with task := .callBack pevent } pevent
        (some { s with callBackInProgress := true }), pfl.map fun log => (pevent, log))
    else return (q, none)

/-- The end of a call back. -/
def call_back_done (q : EventUser ι α) (pevent : ι) : Option (EventUser ι α) := do
  let s ← q.sub pevent
  return setSub { q with task := .reading } pevent (some { s with callBackInProgress := false })

/-- The next step of `event_task`. -/
def event_task (q : EventUser ι α) : Option (EventUser ι α × Option (ι × FieldLog α)) :=
  match q.task with
  | .waiting => some (event_read { q with ppendsem := false }, none)
  | .reading => event_read_next q
  | .callBack pevent => (call_back_done q pevent).map fun q => (q, none)

/-! ### Flow control -/

def setFlowCtrlMode (q : EventUser ι α) (on : Bool) : EventUser ι α :=
  { q with flowCtrlMode := on, signals := q.signals + 1 }

def db_event_flow_ctrl_mode_on (q : EventUser ι α) : EventUser ι α := setFlowCtrlMode q true
def db_event_flow_ctrl_mode_off (q : EventUser ι α) : EventUser ι α := setFlowCtrlMode q false

/-- `epicsEventSignal(ppendsem)` -/
def signal (q : EventUser ι α) : EventUser ι α :=
  { q with signals := q.signals - 1, ppendsem := true }

/-! ### Steps -/

/-- What a thread does with the queue. -/
inductive Action (ι α : Type) where
  | db_add_event (pevent : ι)
  | db_cancel_event (pevent : ι)
  /-- a `db_cancel_event` goes on after it has waited -/
  | cancel_end (pevent : ι)
  | db_queue_event_log (pevent : ι) (pLog : FieldLog α)
  | event_task
  | db_event_flow_ctrl_mode_on
  | db_event_flow_ctrl_mode_off
  | signal

/-- One action, with the log that the client gets. -/
def step (q : EventUser ι α) : Action ι α → Option (EventUser ι α × Option (ι × FieldLog α))
  | .db_add_event pevent => some (db_add_event q pevent, none)
  | .db_cancel_event pevent => (db_cancel_event q pevent).map fun q => (q, none)
  | .cancel_end pevent => (cancel_end q pevent).map fun q => (q, none)
  | .db_queue_event_log pevent pLog => (db_queue_event_log q pevent pLog).map fun q => (q, none)
  | .event_task => event_task q
  | .db_event_flow_ctrl_mode_on => some (db_event_flow_ctrl_mode_on q, none)
  | .db_event_flow_ctrl_mode_off => some (db_event_flow_ctrl_mode_off q, none)
  | .signal => some (signal q, none)

/-- The subscription is in use. -/
def inUse : Option EvSubscrip → Bool
  | some s => s.user_sub
  | none => false

/-- The subscription is being cancelled. -/
def inCancel : Option EvSubscrip → Bool
  | some s => !s.user_sub
  | none => false

/-- **What the callers see to**: a block is free when it is added, a subscription is used until it is
cancelled and cancelled once, and the event task runs when it has been signalled. -/
def Allowed (q : EventUser ι α) : Action ι α → Prop
  | .db_add_event pevent => q.sub pevent = none
  | .db_cancel_event pevent | .db_queue_event_log pevent _ => inUse (q.sub pevent)
  | .cancel_end pevent => inCancel (q.sub pevent)
  | .event_task => q.task = .waiting → q.ppendsem
  | .db_event_flow_ctrl_mode_on | .db_event_flow_ctrl_mode_off => True
  | .signal => 0 < q.signals

end Functions

end RackmonIoc.Event
