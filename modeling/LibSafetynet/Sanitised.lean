import LibSafetynet.Metering
import LibSafetynet.ProcessExit

/-!
# What the library gives back is wiped

With `SN_CONFIG_SANITIZE_MEMORY_ON_FREE`, `sn_free` and the exit clear as many bytes of a
block as are recorded of it before they pass it to the platform. In a run in which what is
recorded is the length, that is all of it (`freed_blocks_wiped`).
-/

namespace LibSafetynet

open Logic Prog

/-- Every block that was passed to `plat_free` was as long as recorded. -/
def GivesWhole (cfg : Config) (h : ClientHeap) : Prop := ∀ b ∈ h.freed, GivenWhole cfg b

section Wiped

variable {cfg : Config} {s s' : Lib} {L : List Addr} {ls : List (Env × Op)}

theorem GivenWhole.wiped {b : Addr × List UInt8} (h : GivenWhole cfg b)
    (hcfg : cfg.sanitizeMemoryOnFree = true) : ∀ x ∈ b.2, x = 0 := by
  obtain ⟨size, bytes, hlen, hb⟩ := h
  have hall : sanitized cfg size bytes = List.replicate size.toNat 0 := by
    rw [sanitized, if_pos hcfg, List.drop_eq_nil_of_le hlen.le, List.append_nil]
  intro x hx
  rw [hb, hall] at hx
  exact List.eq_of_mem_replicate hx

/-- **One operation** gives back whole blocks. -/
theorem Registry.Metered.givesWhole {R : Registry} {env : Env} {o : Oracle} {op : Op}
    (hR : R.Metered) (hok : R.Allows op) (hcounts : R.Counts env op)
    (hwhole : GivesWhole cfg R.heap) : GivesWhole cfg (R.step cfg env o op).2.heap := by
  by_cases hlimit : ∃ n, op = .setAllocLimit n
  · obtain ⟨n, rfl⟩ := hlimit
    exact hwhole
  have hposted : Posted cfg R (R.step cfg env o op).2 :=
    step_posted hR.consistent hok hcounts fun n hn => hlimit ⟨n, hn⟩
  obtain ⟨given, hfreed, hgiven⟩ := hposted.freed hR
  intro b hb
  rw [hfreed, List.mem_append] at hb
  exact hb.elim (hwhole b) (hgiven b)

/-- **A run** gives back whole blocks. -/
theorem Orderly.givesWhole (hL : Orderly L s) (hm : s.registry.Metered)
    (hwhole : GivesWhole cfg s.heap) (hok : Along (libStep cfg) CountsInFull ls s)
    (hrun : Logic.run (libStep cfg) ls s = some s') : GivesWhole cfg s'.heap := by
  refine (run_invariant (P := CountsInFull)
    (I := fun s => (∃ L, Orderly L s) ∧ s.registry.Metered ∧ GivesWhole cfg s.heap) ?_
    ⟨⟨L, hL⟩, hm, hwhole⟩ hok hrun).2.2
  rintro l s s' ⟨⟨L, hL⟩, hm, hwhole⟩ ⟨hrespects, hcounts⟩ hstep
  obtain ⟨⟨o, hreg⟩, hend⟩ := hL.next hrespects hstep
  have hstepped : GivesWhole cfg s'.registry.heap :=
    hreg ▸ hm.givesWhole hrespects.1 hcounts hwhole
  exact ⟨hend, hreg ▸ hm.step hrespects.1 hcounts, hstepped⟩

/-- The exit gives back the tracked blocks, whole. -/
theorem ExitLeaves.givesWhole (h : ExitLeaves cfg s s') (hm : s.registry.Metered)
    (hwhole : GivesWhole cfg s.heap) : GivesWhole cfg s'.heap := by
  cases hfree : s.doFree with
  | false =>
    rw [h.untouched hfree]
    exact hwhole
  | true =>
    intro b hb
    rw [h.released hfree, List.mem_append, List.mem_map] at hb
    rcases hb with hold | ⟨t, ht, rfl⟩
    · exact hwhole b hold
    · exact ⟨t.size, s.heap.bytes t.data, hm.recorded t.record (List.mem_map_of_mem ht), rfl⟩

end Wiped

/-- **No byte leaves with a freed block.** In a sanitising build, after every run of a client
that respects the library and in which no call tracks what it does not count in full, the
blocks that the library passed to `plat_free` were all zeros, also in a failed mount; and so
are those that the exit then passes on. -/
theorem freed_blocks_wiped {cfg : Config} {s₀ s : Lib} {ls : List (Env × Op)} (h₀ : Started s₀)
    (hok : Along (libStep cfg) CountsInFull ls s₀) (hrun : run (libStep cfg) ls s₀ = some s)
    (hcfg : cfg.sanitizeMemoryOnFree = true) :
    (∀ b ∈ s.heap.freed, ∀ x ∈ b.2, x = 0) ∧
      ∀ env s', doexit cfg env s = .done () s' → ∀ b ∈ s'.heap.freed, ∀ x ∈ b.2, x = 0 := by
  have hstart := (loaded_of_started h₀).orderly
  have hnone : GivesWhole cfg s₀.heap := by
    rw [(loaded_of_started h₀).heap]
    exact fun _ hb => absurd hb List.not_mem_nil
  have hwhole := hstart.givesWhole (started_metered h₀) hnone hok hrun
  obtain ⟨⟨L, hL⟩, hm⟩ := hstart.metered (started_metered h₀) hok hrun
  refine ⟨fun b hb => (hwhole b hb).wiped hcfg, fun env s' hexit b hb => ?_⟩
  have hspec : wlp (doexit cfg) env (fun _ s' => GivesWhole cfg s'.heap) s :=
    wp_doexit_of_consistent hL.base hL.consistent (fun _ _ => trivial) fun _ hleaves =>
      hleaves.givesWhole hm hwhole
  exact (hspec.done hexit b hb).wiped hcfg

/-- Of two blocks of sevens one is freed in the run and one at the exit. -/
theorem freed_blocks_wiped_at : ∃ s₀ s : Lib, Started s₀ ∧
    run (libStep ⟨true⟩) [(Env.plain 1 128 4096, .mallocPreInitialized 2 7),
      (Env.plain 2 192 8192, .mallocPreInitialized 3 7), (Env.plain 1 0 0, .free 4096)] s₀ =
        some s ∧ s.heap.freed = [(4096, [0, 0])] ∧
    s.heap.bytes 8192 = [7, 7, 7] ∧ (∀ b ∈ s.heap.freed, ∀ x ∈ b.2, x = 0) ∧
      ∀ env s', doexit ⟨true⟩ env s = .done () s' → ∀ b ∈ s'.heap.freed, ∀ x ∈ b.2, x = 0 := by
  have hsome : ((doinit (Env.plain 1 64 0) .blank).done?.bind fun s₀ =>
      (run (libStep ⟨true⟩) [(Env.plain 1 128 4096, .mallocPreInitialized 2 7),
        (Env.plain 2 192 8192, .mallocPreInitialized 3 7), (Env.plain 1 0 0, .free 4096)] s₀).map
        fun s => (s.heap.freed, s.heap.bytes 8192)) = some ([(4096, [0, 0])], [7, 7, 7]) := by
    decide +kernel
  obtain ⟨s₀, h₀, hrest⟩ := Option.bind_eq_some_iff.mp hsome
  obtain ⟨s, hrun, hval⟩ := Option.map_eq_some_iff.mp hrest
  obtain ⟨hfreed, hbytes⟩ := Prod.mk.inj hval
  have hok : Along (libStep ⟨true⟩) CountsInFull [(Env.plain 1 128 4096, .mallocPreInitialized 2 7),
      (Env.plain 2 192 8192, .mallocPreInitialized 3 7), (Env.plain 1 0 0, .free 4096)] s₀ := by
    refine Along.of_forall (fun l hl s => ?_) _
    simp only [List.mem_cons, List.not_mem_nil, or_false] at hl
    rcases hl with rfl | rfl | rfl <;> exact ⟨⟨trivial, id⟩, trivial⟩
  exact ⟨s₀, s, started_of_done h₀, hrun, hfreed, hbytes,
    freed_blocks_wiped (started_of_done h₀) hok hrun rfl⟩

end LibSafetynet
