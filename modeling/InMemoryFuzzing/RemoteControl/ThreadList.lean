import InMemoryFuzzing.Base.Linked
import InMemoryFuzzing.Base.Loop

/-!
# The list of running threads

`start_thread` walks to the last record and puts a new one behind it. `delete_running_thread_info`
walks with two cursors, and begins with both at NULL: the first round moves to the first record, and
the loop is left by its condition or, at the last record, by a `break`. Only behind the loop it is
seen whether the cursor is at the victim.

A record that is not allocated is not read, written or freed, and NULL is not followed; where the
code does so its behaviour is undefined.
-/

namespace InMemoryFuzzing.RemoteControl

open Base

/-- `struct running_thread_info`; a pointer that is NULL is `none`. -/
structure RunningThreadInfo (Addr Thread : Type) where
  thread : Thread
  next : Option Addr
  deriving DecidableEq, Repr

instance {Addr Thread : Type} : LinkedRecord (RunningThreadInfo Addr Thread) Addr Thread where
  value := RunningThreadInfo.thread
  next := RunningThreadInfo.next

/-- What C leaves undefined. -/
inductive HeapFault
  | nullPointer
  | notAllocated
  deriving DecidableEq, Repr

/-- The variable with the first record, and the records that are allocated. -/
structure ThreadList (Addr Thread : Type) where
  firstElement : Option Addr
  heap : Addr → Option (RunningThreadInfo Addr Thread)

namespace ThreadList

variable {Addr Thread : Type} [DecidableEq Addr]

/-- The record at an address. -/
def load (heap : Addr → Option (RunningThreadInfo Addr Thread)) (a : Addr) :
    Except HeapFault (RunningThreadInfo Addr Thread) :=
  match heap a with
  | none => .error .notAllocated
  | some record => .ok record

/-- `simple_free`. -/
def simpleFree (heap : Addr → Option (RunningThreadInfo Addr Thread)) (a : Addr) :
    Except HeapFault (Addr → Option (RunningThreadInfo Addr Thread)) := do
  let _ ← load heap a
  return Function.update heap a none

/-- An assignment to `next`. -/
def setNext (heap : Addr → Option (RunningThreadInfo Addr Thread)) (a : Addr)
    (next : Option Addr) : Except HeapFault (Addr → Option (RunningThreadInfo Addr Thread)) := do
  let record ← load heap a
  return Function.update heap a (some { record with next := next })

/-! ## `start_thread` -/

/-- The body of the loop, whose variable is `current_thread_info`. -/
def lastRound (s : ThreadList Addr Thread) (currentThreadInfo : Option Addr) :
    Except HeapFault (Option Addr ⊕ Option Addr) :=
  match currentThreadInfo with
  | none => .ok (.inr none)
  | some a => do
      let record ← load s.heap a
      if record.next ≠ none then return .inl record.next
      else return .inr (some a)

/-- Behind the loop, with the block that `malloc` returns and the handle that `pthread_create` puts
into it. The block is returned. -/
def append (s : ThreadList Addr Thread) (newThreadInfo : Addr) (thread : Thread)
    (currentThreadInfo : Option Addr) : Except HeapFault (Addr × ThreadList Addr Thread) := do
  let heap := Function.update s.heap newThreadInfo (some ⟨thread, none⟩)
  match currentThreadInfo with
  | none => return (newThreadInfo, ⟨some newThreadInfo, heap⟩)
  | some a =>
      let heap ← setNext heap a (some newThreadInfo)
      return (newThreadInfo, { s with heap := heap })

/-- `start_thread`. -/
def StartsThread (s : ThreadList Addr Thread) (newThreadInfo : Addr) (thread : Thread)
    (outcome : Except HeapFault (Addr × ThreadList Addr Thread)) : Prop :=
  ∃ currentThreadInfo, EndsWith s.lastRound s.firstElement currentThreadInfo ∧
    outcome = currentThreadInfo >>= s.append newThreadInfo thread

/-! ## `delete_running_thread_info` -/

/-- `prev_element` and `current_element`. -/
structure Cursor (Addr : Type) where
  prevElement : Option Addr
  currentElement : Option Addr
  deriving DecidableEq, Repr

/-- The condition behind a round. -/
def whileNot (victim : Option Addr) (c : Cursor Addr) : Cursor Addr ⊕ Cursor Addr :=
  if c.currentElement ≠ none ∧ c.currentElement ≠ victim then .inl c else .inr c

/-- The body of the loop. -/
def searchRound (s : ThreadList Addr Thread) (victim : Option Addr) (c : Cursor Addr) :
    Except HeapFault (Cursor Addr ⊕ Cursor Addr) :=
  match c.currentElement with
  | none => .ok (whileNot victim { c with currentElement := s.firstElement })
  | some current => do
      let record ← load s.heap current
      -- `break`, in front of the condition
      if record.next = none then return .inr c
      else return whileNot victim ⟨some current, record.next⟩

/-- Behind the loop. -/
def detach (s : ThreadList Addr Thread) (victim : Option Addr) (c : Cursor Addr) :
    Except HeapFault (ThreadList Addr Thread) :=
  if c.currentElement = victim then
    match c.currentElement with
    | none => .error .nullPointer
    | some current => do
        let record ← load s.heap current
        match c.prevElement with
        | none =>
            let heap ← simpleFree s.heap current
            return ⟨record.next, heap⟩
        | some prev =>
            let heap ← setNext s.heap prev record.next
            let heap ← simpleFree heap current
            return { s with heap := heap }
  else .ok s

/-- `delete_running_thread_info`. -/
def DeletesRunningThreadInfo (s : ThreadList Addr Thread) (victim : Option Addr)
    (outcome : Except HeapFault (ThreadList Addr Thread)) : Prop :=
  ∃ c, EndsWith (s.searchRound victim) ⟨none, none⟩ c ∧ outcome = c >>= s.detach victim

/-! ## Operations one after the other -/

/-- An empty list; other records may be allocated. -/
def empty (heap : Addr → Option (RunningThreadInfo Addr Thread)) : ThreadList Addr Thread :=
  ⟨none, heap⟩

/-- A call; the victims are not NULL. -/
inductive Operation (Addr Thread : Type)
  | start (newThreadInfo : Addr) (thread : Thread)
  | delete (victim : Addr)
  deriving DecidableEq, Repr

/-- `malloc` returns a block that is not allocated. -/
def Allowed (s : ThreadList Addr Thread) : Operation Addr Thread → Prop
  | .start newThreadInfo _ => s.heap newThreadInfo = none
  | .delete _ => True

/-- The outcome of a call. -/
def Yields (s : ThreadList Addr Thread) (op : Operation Addr Thread)
    (outcome : Except HeapFault (ThreadList Addr Thread)) : Prop :=
  match op with
  | .start newThreadInfo thread =>
      ∃ result, s.StartsThread newThreadInfo thread result ∧ outcome = result.map Prod.snd
  | .delete victim => s.DeletesRunningThreadInfo (some victim) outcome

/-- The calls return one after the other. -/
inductive Runs (s : ThreadList Addr Thread) :
    List (Operation Addr Thread) → ThreadList Addr Thread → Prop
  | nil : Runs s [] s
  | snoc {ops : List (Operation Addr Thread)} {op : Operation Addr Thread}
      {t next : ThreadList Addr Thread} (h : Runs s ops t) (hallowed : t.Allowed op)
      (hyields : t.Yields op (.ok next)) : Runs s (ops ++ [op]) next

end ThreadList

/-! ## The threads that run -/

/-- The records of the threads that have been started and not been deleted, behind a call. -/
def ThreadList.Operation.apply {Addr Thread : Type} [DecidableEq Addr]
    (running : List (Addr × Thread)) : Operation Addr Thread → List (Addr × Thread)
  | .start newThreadInfo thread => running ++ [(newThreadInfo, thread)]
  | .delete victim => running.filter fun e => e.1 ≠ victim

/-- In the order in which they have been started. -/
def runningThreads {Addr Thread : Type} [DecidableEq Addr]
    (ops : List (ThreadList.Operation Addr Thread)) : List (Addr × Thread) :=
  ops.foldl ThreadList.Operation.apply []

/-- All that have been started. -/
def startedThreads {Addr Thread : Type} (ops : List (ThreadList.Operation Addr Thread)) :
    List (Addr × Thread) :=
  ops.filterMap fun op =>
    match op with
    | .start newThreadInfo thread => some (newThreadInfo, thread)
    | .delete _ => none

end InMemoryFuzzing.RemoteControl
