import Mazu.Base
import Mazu.Ipc.Mqueue

/-!
# Copies to and from user memory

System calls that move data between user memory and an object of the kernel. Each takes several
steps of which any may fail, and none of them undoes the steps before it.
-/

namespace Mazu.Syscall

def ebadf : Errno := 9
def efault : Errno := 14
def emsgsize : Errno := 90

/-! ## `mq_receive_common` -/

open Ipc.Mqueue (Msg Mq mqMaxMsgSize)

structure RecvArgs where
  bufSize : ℤ
  /-- So many bytes can be copied to the buffer. -/
  buf : ℕ → Bool
  /-- The priority can be copied, if it is asked for. -/
  prio : Option Bool
  /-- How the wait for a message ends, if there is none. -/
  waitError : Errno

/-- `mq_receive_common`. -/
def mqReceiveCommon {T : Type} (o : Mq T) (x : RecvArgs) : Except Errno Msg × Mq T :=
  if x.bufSize < 0 then (.error emsgsize, o)
  else if o.inUse = false then (.error ebadf, o)
  else if x.bufSize < o.maxMsgSize then (.error emsgsize, o)
  else
    match o.msgs.head? with
    | none => (.error x.waitError, o)
    | some m =>
      if min o.maxMsgSize mqMaxMsgSize < m.data.length then (.error emsgsize, o)
      else if x.buf m.data.length = false ∨ x.prio = some false then (.error efault, o.dequeue)
      else (.ok m, o.dequeue)

/-- **A receive that fails leaves the messages exactly when** the caller's memory takes the message
that is next. -/
theorem mqReceiveCommon_error_iff {T : Type} (o : Mq T) (x : RecvArgs) :
    (∀ e, (mqReceiveCommon o x).1 = .error e → (mqReceiveCommon o x).2.msgs = o.msgs) ↔
      ∀ m, o.inUse = true → o.maxMsgSize ≤ x.bufSize → o.msgs.head? = some m →
        m.data.length ≤ min o.maxMsgSize mqMaxMsgSize →
          x.buf m.data.length = true ∧ x.prio ≠ some false := by
  constructor
  · intro hlaw m huse hsize hm hlen
    have hmsgs := hlaw efault
    rw [mqReceiveCommon, if_neg (by omega), if_neg (by rw [huse]; nofun), if_neg (by omega), hm]
      at hmsgs
    dsimp only at hmsgs
    rw [if_neg (by omega)] at hmsgs
    split_ifs at hmsgs with hbad
    · have hlength := congrArg List.length (hmsgs rfl)
      obtain ⟨ms, hms⟩ := List.head?_eq_some_iff.mp hm
      rw [Mq.dequeue, hms, List.length_tail, List.length_cons] at hlength
      omega
    · simpa using hbad
  · intro hcond e
    rw [mqReceiveCommon]
    split_ifs with hneg huse hsize
    · exact fun _ ↦ rfl
    · exact fun _ ↦ rfl
    · exact fun _ ↦ rfl
    · cases hm : o.msgs.head? with
      | none => exact fun _ ↦ rfl
      | some m =>
        dsimp only
        split_ifs with hlong hbad
        · exact fun _ ↦ rfl
        · have hgood := hcond m (by simpa using huse) (by omega) hm (by omega)
          simp [hgood] at hbad
        · exact nofun

def oneMessage : Mq Unit :=
  { Mq.boot with
    inUse := true
    maxMsgSize := 8
    msgs := [⟨[1], 0⟩] }

/-- The priority is to go to an address that cannot be written: the message is gone. -/
theorem not_mqReceiveCommon_error :
    (mqReceiveCommon oneMessage ⟨8, fun _ ↦ true, some false, 11⟩).1 = .error efault ∧
      (mqReceiveCommon oneMessage ⟨8, fun _ ↦ true, some false, 11⟩).2.msgs ≠ oneMessage.msgs := by
  decide +kernel

end Mazu.Syscall
