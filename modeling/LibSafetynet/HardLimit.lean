import LibSafetynet.Metering

/-!
# The limit on what is allocated

The check of the limit adds in `size_t` and can wrap. But while the counter is the number of
bytes in the tracked blocks, a request that makes the sum wrap finds no room in the address
space. So it is never granted, and the limit holds (`limit_is_hard`).
-/

namespace LibSafetynet

open Logic

namespace Registry

variable {R R' : Registry} {cfg : Config}

/-- A sum that does not wrap and passes the check is below the limit. -/
theorem lt_limit_of_not_refuses {size : UInt64} (h : ¬ R.Refuses size)
    (hlimit : R.limit ≠ memmanNoAllocLimit)
    (hwrap : R.usage.toNat + size.toNat < addressSpace) :
    R.usage.toNat + size.toNat < R.limit.toNat := by
  have hlt : R.usage + size < R.limit := UInt64.not_le.mp fun hle => h ⟨hlimit, hle⟩
  rw [UInt64.lt_iff_toNat_lt, UInt64.toNat_add, Nat.mod_eq_of_lt hwrap] at hlt
  exact hlt

/-- **One posting** does not make what is held grow past the limit. -/
theorem Posted.held_le (h : Posted cfg R R') (hR : R.Metered) (hR' : R'.Metered)
    (hlimit : R.limit ≠ memmanNoAllocLimit) :
    R'.held ≤ R.held ∨ R'.held < R.limit.toNat := by
  have hroom : total R'.records < 2 ^ 64 := hR'.consistent.total_lt
  have hcounted := hR.counted
  rw [hR'.held_eq, hR.held_eq]
  cases h with
  | kept _ hrecords _ _ _ _ =>
    rw [hrecords]
    exact Or.inl le_rfl
  | @allocated r bytes _ hpasses _ _ _ hperm _ =>
    have hsum : total R'.records = r.2.toNat + total R.records :=
      (total_perm hperm).trans total_cons
    have hwrap : R.usage.toNat + r.2.toNat < addressSpace := by
      show _ < 2 ^ 64
      omega
    have hlt := lt_limit_of_not_refuses hpasses hlimit hwrap
    right
    omega
  | @released r rest _ hperm hperm' _ _ _ =>
    have hsum : total R.records = r.2.toNat + total rest := (total_perm hperm).trans total_cons
    have hsum' : total R'.records = total rest := total_perm hperm'
    left
    omega
  | @resized r q rest bytes _ hpasses hperm _ _ _ hperm' _ =>
    have hsum : total R.records = r.2.toNat + total rest := (total_perm hperm).trans total_cons
    have hsum' : total R'.records = q.2.toNat + total rest := (total_perm hperm').trans total_cons
    by_cases hgrows : r.2 < q.2
    · have hle := UInt64.lt_iff_toNat_lt.mp hgrows
      have hdiff : (q.2 - r.2).toNat = q.2.toNat - r.2.toNat :=
        UInt64.toNat_sub_of_le _ _ (UInt64.le_of_lt hgrows)
      have hwrap : R.usage.toNat + (q.2 - r.2).toNat < addressSpace := by
        show _ < 2 ^ 64
        omega
      have hlt := lt_limit_of_not_refuses (hpasses hgrows) hlimit hwrap
      right
      omega
    · have hle := UInt64.le_iff_toNat_le.mp (UInt64.not_lt.mp hgrows)
      left
      omega

end Registry

/-- **A run** in which the limit is not set does not make what is held grow past it. -/
theorem Orderly.held_le {cfg : Config} {s s' : Lib} {L : List Addr} {ls : List (Env × Op)}
    (hL : Orderly L s) (hm : s.registry.Metered)
    (hok : Along (libStep cfg) CountsInFull ls s) (hset : ∀ l ∈ ls, ∀ n, l.2 ≠ .setAllocLimit n)
    (hlimit : s.registry.limit ≠ memmanNoAllocLimit)
    (hrun : Logic.run (libStep cfg) ls s = some s') :
    s'.registry.held ≤ s.registry.held ∨ s'.registry.held < s.registry.limit.toNat := by
  have hboth : Along (libStep cfg)
      (fun l s => CountsInFull l s ∧ ∀ n, l.2 ≠ .setAllocLimit n) ls s :=
    hok.and (Along.of_forall (fun l hl _ => hset l hl) s)
  refine (run_invariant (P := fun l s => CountsInFull l s ∧ ∀ n, l.2 ≠ .setAllocLimit n)
    (I := fun s₁ => (∃ L, Orderly L s₁) ∧ s₁.registry.Metered ∧
      s₁.registry.limit = s.registry.limit ∧
      (s₁.registry.held ≤ s.registry.held ∨ s₁.registry.held < s.registry.limit.toNat))
    ?_ ⟨⟨L, hL⟩, hm, rfl, Or.inl le_rfl⟩ hboth hrun).2.2.2
  rintro l s₁ s₂ ⟨⟨L, hL⟩, hm, hsame, hheld⟩ ⟨⟨hrespects, hcounts⟩, hset⟩ hstep
  obtain ⟨⟨o, hreg⟩, L₂, hL₂⟩ := hL.next hrespects hstep
  have hposted : Registry.Posted cfg s₁.registry s₂.registry :=
    hreg ▸ Registry.step_posted hm.consistent hrespects.1 hcounts hset
  have hm₂ := hposted.metered hm hL₂.registry_consistent
  refine ⟨⟨L₂, hL₂⟩, hm₂, hposted.limit_eq.trans hsame, ?_⟩
  have hbound := hposted.held_le hm hm₂ (hsame ▸ hlimit)
  rw [hsame] at hbound
  omega

/-- **The limit is hard while the counter is right.** In a run of a client that respects the
library, and in which no call tracks what it does not count in full, the counter is the number
of bytes in the tracked blocks, with or without a limit. From any of its states on, as long as
the limit that is set there is not set again, these bytes do not grow beyond it, although its
check wraps around. -/
theorem limit_is_hard {cfg : Config} {s₀ s : Lib} {pre : List (Env × Op)}
    (h₀ : Started s₀) (hokPre : Along (libStep cfg) CountsInFull pre s₀)
    (hpre : run (libStep cfg) pre s₀ = some s) :
    s.manager.globalMemoryUsage.toNat = s.registry.held ∧
      ∀ ls s', Along (libStep cfg) CountsInFull ls s →
        (∀ l ∈ ls, ∀ n, l.2 ≠ .setAllocLimit n) →
        s.manager.allocLimit ≠ memmanNoAllocLimit → run (libStep cfg) ls s = some s' →
          s'.registry.held ≤ s.registry.held ∨
            s'.registry.held < s.manager.allocLimit.toNat := by
  obtain ⟨⟨L, hL⟩, hm⟩ :=
    (loaded_of_started h₀).orderly.metered (started_metered h₀) hokPre hpre
  refine ⟨hm.counted.trans hm.held_eq.symm, ?_⟩
  intro ls s' hok hset hlimit hrun
  exact hL.held_le hm hok hset hlimit hrun

/-- With four of at most nine bytes taken, a request that wraps passes the check and is not
granted, and one for five more is. -/
theorem limit_is_hard_at : ∃ s₀ s s' : Lib, Started s₀ ∧
    run (libStep ⟨true⟩) [(Env.plain 1 0 0, .setAllocLimit 10),
      (Env.plain 1 128 4096, .malloc 4)] s₀ = some s ∧
    run (libStep ⟨true⟩) [(Env.plain 1 192 8192, .malloc 0xFFFFFFFFFFFFFFFC),
      (Env.plain 1 192 8192, .malloc 5)] s = some s' ∧ s.manager.allocLimit = 10 ∧
    s.manager.globalMemoryUsage.toNat = s.registry.held ∧ s.registry.held = 4 ∧
      s'.registry.held = 9 ∧
      (s'.registry.held ≤ s.registry.held ∨ s'.registry.held < s.manager.allocLimit.toNat) := by
  have hsome : ((doinit (Env.plain 1 64 0) .blank).done?.bind fun s₀ =>
      (run (libStep ⟨true⟩) [(Env.plain 1 0 0, .setAllocLimit 10),
        (Env.plain 1 128 4096, .malloc 4)] s₀).bind fun s =>
        (run (libStep ⟨true⟩) [(Env.plain 1 192 8192, .malloc 0xFFFFFFFFFFFFFFFC),
          (Env.plain 1 192 8192, .malloc 5)] s).map fun s' =>
          (s.manager.allocLimit, s.registry.held, s'.registry.held)) =
      some (10, 4, 9) := by
    decide +kernel
  obtain ⟨s₀, h₀, hrest⟩ := Option.bind_eq_some_iff.mp hsome
  obtain ⟨s, hpre, hrest⟩ := Option.bind_eq_some_iff.mp hrest
  obtain ⟨s', hrun, hval⟩ := Option.map_eq_some_iff.mp hrest
  obtain ⟨hlimit, hval⟩ := Prod.mk.inj hval
  obtain ⟨hheld, hheld'⟩ := Prod.mk.inj hval
  have hcounted : ∀ (l : Env × Op) (s : Lib), (∃ n, l.2 = .malloc n ∨ l.2 = .setAllocLimit n) →
      CountsInFull l s := by
    rintro ⟨env, op⟩ s ⟨n, rfl | rfl⟩
    · exact ⟨⟨trivial, id⟩, trivial⟩
    · exact ⟨⟨trivial, id⟩, trivial⟩
  have hokPre : Along (libStep ⟨true⟩) CountsInFull [(Env.plain 1 0 0, .setAllocLimit 10),
      (Env.plain 1 128 4096, .malloc 4)] s₀ :=
    ⟨hcounted _ _ ⟨10, Or.inr rfl⟩, fun _ _ => ⟨hcounted _ _ ⟨4, Or.inl rfl⟩, fun _ _ => trivial⟩⟩
  have hok : Along (libStep ⟨true⟩) CountsInFull
      [(Env.plain 1 192 8192, .malloc 0xFFFFFFFFFFFFFFFC),
        (Env.plain 1 192 8192, .malloc 5)] s :=
    ⟨hcounted _ _ ⟨_, Or.inl rfl⟩, fun _ _ => ⟨hcounted _ _ ⟨5, Or.inl rfl⟩, fun _ _ => trivial⟩⟩
  have hset : ∀ l ∈ [(Env.plain 1 192 8192, Op.malloc 0xFFFFFFFFFFFFFFFC),
      (Env.plain 1 192 8192, Op.malloc 5)], ∀ n, l.2 ≠ .setAllocLimit n := by
    intro l hl n
    simp only [List.mem_cons, List.not_mem_nil, or_false] at hl
    rcases hl with rfl | rfl <;> simp
  have hne : s.manager.allocLimit ≠ memmanNoAllocLimit := by
    rw [hlimit]
    decide
  obtain ⟨hcounter, hhard⟩ := limit_is_hard (started_of_done h₀) hokPre hpre
  exact ⟨s₀, s, s', started_of_done h₀, hpre, hrun, hlimit, hcounter, hheld, hheld',
    hhard _ s' hok hset hne hrun⟩

end LibSafetynet
