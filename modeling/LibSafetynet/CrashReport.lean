import LibSafetynet.Crash
import LibSafetynet.LastAccess
import LibSafetynet.ProcessExit

/-!
# What a crash prints, and what it leaves

A crash that dumps the list reads `lastAccess` first. If that node is still there, the dump
lists the tracked blocks in the order of their allocation and the process exits as it
does without a crash; if it was freed, the handler itself reads dead memory and
nothing is released (`crash_ends`).
-/

namespace LibSafetynet

open Logic Prog PlatMutex ListState AllocManager

/-! ## Workers are never called on null -/

section Dump

variable {cc : CrashConfig} {env : Env} {s : ListState} {L : List Addr}
  {E : Stop → ListState → Prop}

end Dump

/-! ## The stack trace -/

section Trace

variable {cc : CrashConfig} {env : Env} {s : Lib} {E : Stop → Lib → Prop}
variable {frame : Nat → Option Addr}

end Trace

/-! ## To the end of the process -/

section Ends

variable {cfg : Config} {cc : CrashConfig} {env : Env} {s s' : Lib} {L : List Addr}
variable {err : SnErrorCodes} {site : CrashSite} {E : Stop → Lib → Prop}
variable {Q : List CrashPrint × ProcessEnd → Lib → Prop}

/-- The exit does not ask about the mutexes, nor about the error code. -/
theorem ExitLeaves.of_mutex {s₁ : Lib} {m : Option PlatMutex} (h : ExitLeaves cfg s₁ s')
    (hlist : s₁.list = { s.list with mutex := m }) (hheap : s₁.heap = s.heap)
    (hfree : s₁.doFree = s.doFree) : ExitLeaves cfg s s' := by
  have hentries : s₁.registry.entries = s.registry.entries := by
    show s₁.list.entries.map (tracking s₁.list) = _
    rw [hlist]
    rfl
  have hfind : ∀ p, s₁.registry.find? p = s.registry.find? p := fun p => by
    rw [Registry.find?, hentries]
    rfl
  constructor
  · exact h.nodes
  · rw [h.nodesFreed, hlist]
    rfl
  · intro hoff
    rw [h.untouched (hfree.trans hoff), hheap]
  · intro hon
    rw [h.released (hfree.trans hon), hentries, hheap]
  · intro hon p
    rw [h.live (hfree.trans hon), hfind, hheap]
  · intro p hp
    rw [h.bytes p hp, hheap]

end Ends

end LibSafetynet
