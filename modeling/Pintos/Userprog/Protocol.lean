import Pintos.Lib.Count
import Pintos.Userprog.Step

/-! Where a thread is in the life of its process, and what it adds to the counters of the PCB there. -/
namespace Pintos.Userprog
open Machine

attribute [local simp] Function.update_apply

def Pc.ended : Pc → Bool
  | .zombie | .gone => true
  | _ => false

namespace Pc

def outside : Pc → Bool
  | .user | .trap _ => true
  | _ => false

def loading : Pc → Bool
  | .load _ => true
  | _ => false

def weight : Pc → Nat
  | .create .execute | .create .failed | .create (.wait none) => 2
  | .work _ | .create _ | .start _ | .join _ | .leave _ | .exit _ | .main _ | .clean
  | .tail _ => 1
  | _ => 0

def presence : Pc → Nat
  | .zombie | .gone => 0
  | .create .execute | .create .failed | .create (.wait none) => 2
  | _ => 1

def closing : Pc → Bool
  | .exit (.enter _) | .main .enter => false
  | .exit _ | .main _ | .clean | .tail _ => true
  | _ => false

def level : Pc → Option Exiting
  | .exit (.enter _) | .main .enter => none
  | .exit _ => some .normal
  | .main _ => some .main
  | _ => none

def late : Pc → Bool
  | .main .assert | .clean | .tail _ | .gone => true
  | _ => false

def todo : Pc → Option (List Tid)
  | .exit (.visit todo) => some todo
  | .exit .unlock | .exit .check | .exit .assert | .clean | .tail _ | .gone => some []
  | _ => none

def absent : Pc → Bool
  | .start .setup | .start .lock | .start .check | .start .push => true
  | .exit (.visit _) | .exit .unlock | .exit .check | .exit .assert | .clean | .tail _
  | .gone => true
  | _ => false

def reaps : Pc → Option Tid
  | .join (.release f) => if f.isMain then none else some f.pos
  | .join (.free f) => some f.pos
  | _ => none

end Pc

def share (w : Pc → Nat) (s : State) (p : Pid) (t : Tid) : Nat :=
  if (s.thread t).pid = p then w (s.thread t).pc else 0

def count (w : Pc → Nat) (s : State) (p : Pid) : Nat := 
  ∑ t ∈ Finset.range s.created, share w s p t

def Over (s : State) (p : Pid) : Prop :=
  ∃ t, t < s.created ∧ (s.thread t).pid = p ∧ (s.thread t).pc = .gone

structure Moves (c : Tid) (s s' : State) : Prop where
  created : s'.created = s.created
  pid : ∀ t, (s'.thread t).pid = (s.thread t).pid
  pc : ∀ t, t ≠ c → (s'.thread t).pc = (s.thread t).pc
  inHandler : ∀ t, t ≠ c → (s'.thread t).inHandler = (s.thread t).inHandler
  pcb : ∀ p, p ≠ (s.thread c).pid → s'.pcb p = s.pcb p

section Counts
variable {s s' : State} {c : Tid}

theorem shareSame {w p} (t : Tid) (pid : (s'.thread t).pid = (s.thread t).pid)
    (pc : (s'.thread t).pc = (s.thread t).pc) : share w s' p t = share w s p t := by
  unfold share
  rw [pid, pc]

theorem countMove {w} (moves : Moves c s s') (alive : c < s.created) :
    count w s' (s.thread c).pid + w (s.thread c).pc =
      count w s (s.thread c).pid + w (s'.thread c).pc := by
  have change := Count.sumChange (g := share w s (s.thread c).pid)
    (h := share w s' (s.thread c).pid) alive
    (fun t other => shareSame t (moves.pid t) (moves.pc t other))
  unfold count
  rw [moves.created]
  simpa [share, moves.pid] using change

theorem countOther {w p} (moves : Moves c s s') (other : p ≠ (s.thread c).pid) :
    count w s' p = count w s p := by
  unfold count
  rw [moves.created]
  refine Finset.sum_congr rfl fun t _ => ?_
  by_cases h : t = c
  · subst h
    simp [share, moves.pid, Ne.symm other]
  · exact shareSame t (moves.pid t) (moves.pc t h)

theorem overMove {p} (moves : Moves c s s') (alive : (s.thread c).pc.ended = false)
    (closed : Over s p) : Over s' p := by
  obtain ⟨t, known, pid, pc⟩ := closed
  have other : t ≠ c := by
    rintro rfl
    simp [pc, Pc.ended] at alive
  exact ⟨t, moves.created ▸ known, by rw [moves.pid]; exact pid, by rw [moves.pc t other]; exact pc⟩

theorem countAdds {w p pc q} (created : s'.created = s.created + 1)
    (new : s'.thread s.created = newThread p pc)
    (others : ∀ t, t ≠ s.created → s'.thread t = s.thread t) :
    count w s' q = count w s q + if p = q then w pc else 0 := by
  unfold count
  rw [created, Finset.sum_range_succ]
  have below : ∑ t ∈ Finset.range s.created, share w s' q t =
      ∑ t ∈ Finset.range s.created, share w s q t :=
    Finset.sum_congr rfl fun t young => by
      rw [share, share, others t (Nat.ne_of_lt (Finset.mem_range.mp young))]
  rw [below]
  simp [share, new, newThread]

end Counts
end Pintos.Userprog
