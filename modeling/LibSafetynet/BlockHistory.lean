import LibSafetynet.RegistryRuns

/-!
# A block through its reallocations

`sn_realloc` may move a block, so the address that a client knows a block by changes
with the replies it gets (`whereIs`). As long as the block is not freed, not written to
and never made shorter than its first bytes, these bytes and the thread that allocated
it stay what they were, wherever it went (`block_followed`).
-/

namespace LibSafetynet

open Logic

/-- Where the block at `p` is after one call, by its reply. -/
def movedTo (p : Addr) : Op → Reply → Addr
  | .realloc q _, .addr a => if q = p ∧ a ≠ NULL then a else p
  | _, _ => p

/-- Where the block at `p` is after the calls. -/
def whereIs : List (Env × Op) → List Reply → Addr → Addr
  | l :: ls, r :: os, p => whereIs ls os (movedTo p l.2 r)
  | _, _, p => p

/-- The operation leaves the first `k` bytes of the block at `p`. -/
def Op.Spares (k : Nat) (p : Addr) : Op → Prop
  | .realloc q newSize => q = p → k ≤ newSize.toNat
  | .free q | .clientFree q | .clientWrite q _ => q ≠ p
  | _ => True

/-- Every call leaves the first `k` bytes of the block, wherever it is by then. -/
def SparesAll (k : Nat) : List (Env × Op) → List Reply → Addr → Prop
  | l :: ls, r :: os, p => l.2.Spares k p ∧ SparesAll k ls os (movedTo p l.2 r)
  | _, _, _ => True

namespace Registry

/-- A block of the thread is tracked at `p`, and begins with `bytes`. -/
def BeginsWith (R : Registry) (p : Addr) (tid : UInt64) (bytes : List UInt8) : Prop :=
  ∃ t, R.find? p = some t ∧ t.tid = tid ∧ bytes <+: R.heap.bytes p

variable {R : Registry} {cfg : Config} {env : Env} {o : Oracle} {op : Op} {p : Addr} {tid : UInt64}
variable {bytes : List UInt8}

theorem movedTo_of_not_alters {r : Reply} (hno : ¬ op.Alters p) : movedTo p op r = p := by
  cases op with
  | realloc q newSize =>
    cases r with
    | addr a => exact if_neg fun h => hno h.1
    | _ => rfl
  | _ => rfl

theorem find?_rewrite_self {t : TrackedBlock} {q : Addr} {f : TrackedBlock → TrackedBlock}
    (hc : R.Consistent) (hfind : R.find? p = some t) (hf : (f t).data = q)
    (hnew : q = p ∨ ¬ R.heap.Live q) : (R.rewrite p f).find? q = some (f t) := by
  obtain ⟨hdata, A, B, hsplit, hne⟩ := hc.split hfind
  have hA : ∀ u ∈ A, u.data ≠ q := by
    intro u hu heq
    rcases hnew with rfl | hdead
    · exact hne u (List.mem_append_left _ hu) heq
    · refine hdead (heq ▸ hc.live u.record ?_)
      exact List.mem_map_of_mem (hsplit ▸ List.mem_append_left _ hu)
  have hnone : A.find? (·.data = q) = none := by simpa using hA
  rw [find?, rewrite]
  dsimp only
  rw [hsplit, map_split f hdata hne, List.find?_append, hnone]
  simp [hf]

/-- `sn_realloc` of the block itself. -/
theorem BeginsWith.realloc {newSize : UInt64} (h : R.BeginsWith p tid bytes) (hc : R.Consistent)
    (hk : bytes.length ≤ newSize.toNat) :
    (R.realloc env o p newSize).2.BeginsWith
      (movedTo p (.realloc p newSize) (R.realloc env o p newSize).1) tid bytes := by
  have hfailed : ∀ err, (R.fail err (.addr NULL)).2.BeginsWith
      (movedTo p (.realloc p newSize) (R.fail err (.addr NULL)).1) tid bytes := by
    intro err
    have hstay : movedTo p (.realloc p newSize) (.addr NULL) = p := by simp [movedTo]
    show ({ R with error := err }).BeginsWith (movedTo p _ (.addr NULL)) tid bytes
    rw [hstay]
    exact h
  obtain ⟨t, hfind, htid, hbytes⟩ := h
  obtain ⟨-, hlive, -⟩ := hc.of_find? hfind
  have hp : p ≠ NULL := fun h0 => hc.wellFormed.null (h0 ▸ hlive)
  rw [Registry.realloc, if_neg hp, hfind]
  dsimp only
  split_ifs with hzero hlimit hadm
  · exact hfailed _
  · exact hfailed _
  swap
  · exact hfailed _
  have hmoved : movedTo p (.realloc p newSize) (.addr env.block) = env.block := by
    simp [movedTo, hadm.ne_null]
  rw [hmoved]
  refine ⟨{ t with data := env.block, size := newSize }, ?_, htid, ?_⟩
  · refine find?_rewrite_self hc hfind rfl ?_
    by_cases hsame : env.block = p
    · exact Or.inl hsame
    · exact Or.inr fun hold => hadm.not_live (ClientHeap.live_drop.mpr ⟨hsame, hold⟩)
  · rw [show ClientHeap.bytes _ env.block = _ from ClientHeap.bytes_place_self]
    have hlen := hbytes.length_le
    rw [List.prefix_take_iff]
    exact ⟨hbytes.trans (List.prefix_append _ _), hk⟩

theorem BeginsWith.setBlockId {id : UInt16} (h : R.BeginsWith p tid bytes) (hc : R.Consistent) :
    (R.step cfg env o (.setBlockId p id)).2.BeginsWith p tid bytes := by
  have hkept := h
  obtain ⟨t, hfind, htid, hbytes⟩ := h
  obtain ⟨hdata, hlive, -⟩ := hc.of_find? hfind
  have hp : p ≠ NULL := fun h0 => hc.wellFormed.null (h0 ▸ hlive)
  rw [Registry.step]
  split_ifs
  · exact hkept
  rcases answer_or hp hfind with heq | heq
  · rw [heq]
    exact ⟨{ t with blockId := id }, find?_rewrite_self hc hfind hdata (Or.inl rfl), htid, hbytes⟩
  · rw [heq]
    exact hkept

/-- **One step**: the block begins as before, where the reply says it is. -/
theorem BeginsWith.step (h : R.BeginsWith p tid bytes) (hc : R.Consistent)
    (hspares : op.Spares bytes.length p) :
    (R.step cfg env o op).2.BeginsWith (movedTo p op (R.step cfg env o op).1) tid bytes := by
  have hchange : Change R op (R.step cfg env o op).2 := step_change op
  by_cases halters : op.Alters p
  swap
  · obtain ⟨t, hfind, htid, hbytes⟩ := h
    obtain ⟨hfind', hbytes'⟩ := hchange.untouched hc halters hfind
    rw [movedTo_of_not_alters halters]
    exact ⟨t, hfind', htid, hbytes' ▸ hbytes⟩
  cases op with
  | realloc q newSize =>
    obtain rfl : q = p := halters
    exact h.realloc hc (hspares rfl)
  | setBlockId q id =>
    obtain rfl : q = p := halters
    exact h.setBlockId hc
  | free q => exact absurd halters hspares
  | clientFree q => exact absurd halters hspares
  | clientWrite q bs => exact absurd halters hspares
  | _ => exact halters.elim

end Registry

theorem Logic.Spec.Explains.beginsWith {cfg : Config} {ls : List (Env × Op)} {R R' : Registry}
    {os : List Reply} {p : Addr} {tid : UInt64} {bytes : List UInt8}
    (h : (registrySpec cfg).Explains ls R os R') (hc : R.Consistent)
    (hbegins : R.BeginsWith p tid bytes) (hspares : SparesAll bytes.length ls os p) :
    R'.BeginsWith (whereIs ls os p) tid bytes := by
  induction h generalizing p with
  | nil R => exact hbegins
  | @cons l ls o R R₁ R' r os hallows hstep hrest ih =>
    obtain ⟨rfl, rfl⟩ : r = (R.step cfg l.1 o l.2).1 ∧ R₁ = (R.step cfg l.1 o l.2).2 :=
      ⟨(congrArg Prod.fst hstep).symm, (congrArg Prod.snd hstep).symm⟩
    have hchange : Registry.Change R l.2 (R.step cfg l.1 o l.2).2 := Registry.step_change l.2
    exact ih (hchange.consistent hc hallows) (hbegins.step hc hspares.1) hspares.2

/-- **A block keeps its first bytes** and its thread through every run of a client that
respects the library and spares them, however often it is reallocated; the replies tell
where it is. -/
theorem block_followed {cfg : Config} {s₀ s s' : Lib} {pre ls : List (Env × Op)} {os : List Reply}
    {p : Addr} {t : TrackedBlock} {bytes : List UInt8} (h₀ : Started s₀)
    (hokPre : Along (libStep cfg) Respects pre s₀) (hpre : run (libStep cfg) pre s₀ = some s)
    (hok : Along (libStep cfg) Respects ls s)
    (hrun : history (replyStep cfg) ls s = some (os, s')) (hfind : s.registry.find? p = some t)
    (hbytes : bytes <+: s.heap.bytes p) (hspares : SparesAll bytes.length ls os p) :
    ∃ t', s'.registry.find? (whereIs ls os p) = some t' ∧ t'.tid = t.tid ∧
      bytes <+: s'.heap.bytes (whereIs ls os p) := by
  obtain ⟨L, hL⟩ := (loaded_of_started h₀).orderly.run hokPre hpre
  obtain ⟨hexplains, -⟩ := hL.explained hok hrun
  have hbegins : s.registry.BeginsWith p t.tid bytes := ⟨t, hfind, rfl, hbytes⟩
  exact hexplains.beginsWith hL.registry_consistent hbegins hspares

/-- A block of two sevens is moved and made longer. -/
theorem block_followed_at :
    ∃ s₀ s s' t', Started s₀ ∧
      run (libStep ⟨true⟩) [(Env.plain 1 128 4096, .mallocPreInitialized 2 7)] s₀ = some s ∧
      history (replyStep ⟨true⟩) [(Env.plain 2 0 8192, .realloc 4096 4)] s =
        some ([.addr 8192], s') ∧
      s'.registry.find? 8192 = some t' ∧ t'.tid = 1 ∧ [7, 7] <+: s'.heap.bytes 8192 := by
  have hsome : ((doinit (Env.plain 1 64 0) .blank).done?.bind fun s₀ =>
      (run (libStep ⟨true⟩) [(Env.plain 1 128 4096, .mallocPreInitialized 2 7)] s₀).bind fun s =>
        (history (replyStep ⟨true⟩) [(Env.plain 2 0 8192, .realloc 4096 4)] s).map fun q =>
          (s.registry.find? 4096, s.heap.bytes 4096, q.1,
            decide (∀ i, (s.manager.cacheList i).value ≠ findPtr s.list s.list.entries 4096))) =
      some (some ⟨4096, 2, 1, 0⟩, [7, 7], [.addr 8192], true) := by
    decide +kernel
  obtain ⟨s₀, h₀, hrest⟩ := Option.bind_eq_some_iff.mp hsome
  obtain ⟨s, hpre, hrest⟩ := Option.bind_eq_some_iff.mp hrest
  obtain ⟨⟨os, s'⟩, hrun, hval⟩ := Option.map_eq_some_iff.mp hrest
  obtain ⟨hfind, hval⟩ := Prod.mk.inj hval
  obtain ⟨hbytes, hval⟩ := Prod.mk.inj hval
  obtain ⟨rfl, hslots⟩ := Prod.mk.inj hval
  have hokPre : Along (libStep ⟨true⟩) Respects [(Env.plain 1 128 4096, .mallocPreInitialized 2 7)]
      s₀ := ⟨⟨trivial, id⟩, fun _ _ => trivial⟩
  have hok : Along (libStep ⟨true⟩) Respects [(Env.plain 2 0 8192, .realloc 4096 4)] s :=
    ⟨⟨trivial, fun hmoved => of_decide_eq_true hslots _ hmoved.2.2.choose_spec⟩,
      fun _ _ => trivial⟩
  have hspares : SparesAll 2 [(Env.plain 2 0 8192, .realloc 4096 4)] [.addr 8192] 4096 :=
    ⟨fun _ => by decide, trivial⟩
  have hbegin : [7, 7] <+: s.heap.bytes 4096 := by rw [hbytes]
  obtain ⟨t', ht'⟩ :=
    block_followed (started_of_done h₀) hokPre hpre hok hrun hfind hbegin hspares
  exact ⟨s₀, s, s', t', started_of_done h₀, hpre, hrun, ht'⟩

end LibSafetynet
