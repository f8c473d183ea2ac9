import LibSafetynet.FileRoundTrip
import LibSafetynet.RegistryRuns

/-!
# What becomes of a dumped block

No call changes a file that is there, but for an `sn_dump_to_file` that may write the file
and not read it: its existence check, which opens the file for reading, then says that
there is none. So a dump outlives the block, and whatever else is called before it is
mounted (`dump_survives`).
-/

namespace LibSafetynet

open Logic Prog PlatMutex ListState AllocManager

/-- Library code that leaves the contents of the file. -/
abbrev KeepsFile (path : FileName) (content : List UInt8) {α : Type} (m : CProg Lib α) : Prop :=
  Keeps (fun s : Lib => s.files.lookup path = some content) m

/-- A dump to the file that cannot open it for reading and can open it for writing. -/
def DumpsOver (path : FileName) (l : Env × Op) : Prop :=
  (∃ block, l.2 = .dumpToFile (some path) block) ∧ l.1.fopenOk 0 = false ∧ l.1.fopenOk 1 = true

section Kept

variable {cfg : Config} {env : Env} {s s' : Lib} {path : FileName} {content : List UInt8}
variable {l : Env × Op} {ls : List (Env × Op)}

theorem keepsFile_code : CodeFrame (@KeepsFile path content) where
  pure a := .pure a
  ask := .ask
  bind := .bind
  ite := .ite
  lockAlloc := .zoom_other fun _ _ hs => hs
  unlockAlloc := .zoom_other fun _ _ hs => hs
  getManager := .bind .get fun _ => .pure _

theorem keepsFile_onList {α : Type} (m : CProg ListState α) : KeepsFile path content (onList m) :=
  .zoom_other fun _ _ hs => hs

theorem keepsFile_setManager (f : AllocManager → AllocManager) :
    KeepsFile path content (setManager f) := .modify fun _ hs => hs

/-- The primitives do not touch the files. -/
theorem keepsFile : CallFrame (@KeepsFile path content) where
  toCodeFrame := keepsFile_code
  setUsage _ := keepsFile_setManager _
  setError _ := .modify fun _ hs => hs
  fopenRead _ _ := .bind .ask fun _ => .ite (.bind .get fun _ => .pure _) (.pure _)
  onHeap _ := .zoom_other fun _ _ hs => hs
  deref _ := keepsFile_onList _
  entryGet _ _ _ := keepsFile_onList _
  entrySet _ _ _ := keepsFile_onList _
  tryCacheHit := keepsFile_code.memmanTryCacheHit fun _ => keepsFile_onList _
  tryCacheHitById := keepsFile_code.memmanTryCacheHitById fun _ _ => keepsFile_onList _
  getByPtr _ := keepsFile_onList _
  getById _ := keepsFile_onList _
  hasPtr _ := keepsFile_onList _
  push _ _ _ := keepsFile_onList _
  scan _ _ _ := keepsFile_onList _

theorem keepsFile_memmanTryCachePut (entry : Addr) :
    KeepsFile path content (memmanTryCachePut entry) := by
  refine .bind keepsFile.getManager fun self => .ite (.pure _) (.ite (.pure _) ?_)
  refine .bind keepsFile.lockAlloc fun _ => ?_
  cases self.freeSlot with
  | none => exact .stop _
  | some i =>
    refine .bind (keepsFile.deref entry) fun e => .bind (keepsFile_setManager _) fun _ => ?_
    exact .bind (keepsFile_onList _) fun _ => .bind keepsFile.unlockAlloc fun _ => .pure _

/-- Of the operations only the dumps write files. -/
theorem keepsFile_own : OwnFrame (@KeepsFile path content) where
  toCallFrame := keepsFile
  work := by
    refine .bind keepsFile.lockAlloc fun _ => .bind keepsFile.getManager fun _ => ?_
    refine .bind (keepsFile_onList _) fun _ => .bind (keepsFile_setManager _) fun _ => ?_
    exact keepsFile.unlockAlloc
  requestToFastCache ptr := by
    refine .ite (keepsFile.snError _ _) (.bind (keepsFile.getByPtr ptr) fun entry => ?_)
    exact .ite (keepsFile.snError _ _) (keepsFile_memmanTryCachePut entry)
  cacheClear := keepsFile_code.memmanCacheClear (fun _ _ => keepsFile_onList _)
    fun _ => keepsFile_setManager _
  getLastError := .bind .get fun _ => .pure _
  setDoFree _ := .modify fun _ hs => hs
  setSetting f _ := keepsFile_setManager f

theorem keepsFile_snFree (ptr : Addr) : KeepsFile path content (snFree cfg ptr) :=
  keepsFile.snFree (keepsFile_code.memmanCacheInvalidate (fun _ _ => keepsFile_onList _)
    (fun _ => keepsFile_setManager _) ptr) (keepsFile_onList _)

theorem keepsFile_snMountFileToRam (file : Option FileName) :
    KeepsFile path content (snMountFileToRam cfg file) := by
  cases file with
  | none => exact keepsFile.snError _ _
  | some q =>
    refine .bind (keepsFile.fileExists q) fun _ => .ite (keepsFile.snError _ _) ?_
    refine .bind (keepsFile.fopenRead 1 q) fun found => ?_
    cases found with
    | none => exact keepsFile.snError _ _
    | some bytes =>
      refine .ite (keepsFile.snError _ _) (.bind (keepsFile.snMalloc cfg _) fun buffer => ?_)
      refine .bind (keepsFile_code.when (.stop _)) fun _ => .bind .ask fun env => ?_
      refine .bind (keepsFile.onHeap _) fun _ => .ite ?_ (.pure _)
      exact .bind (keepsFile_snFree buffer) fun _ => keepsFile.snError _ _

/-- A dump to the file finds it there, or cannot open it. -/
theorem wp_snDumpToFile_keeps {block : Addr} (hfile : s.files.lookup path = some content)
    (hno : ¬ (env.fopenOk 0 = false ∧ env.fopenOk 1 = true)) :
    wp (snDumpToFile (some path) block) env (fun _ s' => s'.files.lookup path = some content)
      (fun _ s' => s'.files.lookup path = some content) s := by
  have hkeeps : ∀ {α : Type} {m : CProg Lib α}, KeepsFile path content m → ∀ s : Lib,
      s.files.lookup path = some content →
        wp m env (fun _ s' => s'.files.lookup path = some content)
          (fun _ s' => s'.files.lookup path = some content) s :=
    fun hm s hs => Keeps.iff_wp.mp hm env s hs
  rw [snDumpToFile, wp_ite]
  refine ⟨fun _ => hkeeps (keepsFile.snError _ _) s hfile, fun _ => ?_⟩
  rw [wp_bind]
  refine wp_fileExists fun found hfound => ?_
  rw [wp_ite]
  refine ⟨fun _ => hkeeps (keepsFile.snError _ _) s hfile, fun hmissing => ?_⟩
  -- the file is there, so its check failed, and so will the `fopen` that follows
  have hread : env.fopenOk 0 = false := by
    by_contra hopen
    exact hmissing (hfound.mpr ⟨by simpa using hopen, by rw [hfile]; rfl⟩)
  have hwrite : ¬ env.fopenOk 1 = true := fun h => hno ⟨hread, h⟩
  rw [cacheOrListByPtr, cacheOrList, wp_bind]
  refine (hkeeps (keepsFile.tryCacheHit block) s hfile).imp fun a s₁ hs₁ => ?_
  rw [wp_ite]
  constructor
  · intro _
    refine hkeeps (.bind (keepsFile.getByPtr block) fun entry => ?_) s₁ hs₁
    exact .bind (keepsFile_code.when (keepsFile.snSetLastError _)) fun _ => .pure _
  · intro _
    rw [wp_bind, fopenWrite, wp_bind, wp_ask, wp_ite]
    refine ⟨fun h => absurd h hwrite, fun _ => ?_⟩
    rw [wp_pure, wp_ite]
    exact ⟨fun _ => hkeeps (keepsFile.snError _ _) s₁ hs₁,
      fun hopen => absurd Bool.false_ne_true hopen⟩

/-- **One call** keeps the file, unless it overwrites it. -/
theorem libStep_keepsFile (hfile : s.files.lookup path = some content)
    (hno : ¬ DumpsOver path l) (hstep : libStep cfg l s = some s') :
    s'.files.lookup path = some content := by
  obtain ⟨env, op⟩ := l
  have hwp : wp (op.exec cfg) env (fun _ s' => s'.files.lookup path = some content)
      (fun _ s' => s'.files.lookup path = some content) s := by
    by_cases hdump : ∃ block, op = .dumpToFile (some path) block
    · obtain ⟨block, rfl⟩ := hdump
      rw [Op.exec, forEffect, wp_bind]
      exact wp_snDumpToFile_keeps hfile fun h => hno ⟨⟨block, rfl⟩, h⟩
    · refine Keeps.iff_wp.mp (keepsFile_own.exec op (fun ptr _ => keepsFile_snFree ptr)
        (fun file _ => keepsFile_snMountFileToRam file) fun file block hop => ?_) env s hfile
      refine keepsFile.dumpTo (fun q hq bytes => ?_) block
      refine .modify fun s hs => ?_
      have hne : path ≠ q := fun heq => hdump ⟨block, by rw [hop, hq, heq]⟩
      exact (Finmap.lookup_insert_of_ne _ hne).trans hs
  obtain ⟨_, hdone⟩ := Outcome.done?_eq_some.mp hstep
  exact hwp.done hdone

theorem run_keepsFile (hfile : s.files.lookup path = some content)
    (hno : ∀ l ∈ ls, ¬ DumpsOver path l) (hrun : run (libStep cfg) ls s = some s') :
    s'.files.lookup path = some content :=
  run_invariant (P := fun l _ => ¬ DumpsOver path l)
    (I := fun s => s.files.lookup path = some content)
    (fun _ _ _ hs hl hstep => libStep_keepsFile hs hl hstep) hfile
    (Along.of_forall (fun l hl _ => hno l hl) s) hrun

end Kept

section Dumped

variable {cfg : Config} {env env' : Env} {s s₁ s₂ : Lib} {L : List Addr} {path : FileName}
variable {block p : Addr} {content : List UInt8}

/-- A dump that succeeds was of a tracked block, and all that is recorded of it was written;
what is in the file is as much of that as `fclose` got there. -/
theorem Orderly.dumped (hL : Orderly L s)
    (hdump : replyStep cfg (env, .dumpToFile (some path) block) s = some (.flag true, s₁)) :
    ∃ t, s.registry.find? block = some t ∧ t.size.toNat ≤ (s.heap.bytes block).length ∧
      s₁.files.lookup path =
        some (((s.heap.bytes block).take t.size.toNat).take env.flushed) := by
  have hspec : wlp (replying .flag (snDumpToFile (some path) block)) env (fun r s' =>
      r = .flag true → ∃ t, s.registry.find? block = some t ∧
        t.size.toNat ≤ (s.heap.bytes block).length ∧
          s'.files.lookup path =
            some (((s.heap.bytes block).take t.size.toNat).take env.flushed)) s := by
    have hfalse : Reply.flag false ≠ .flag true := by decide
    rw [wlp, wp_replying]
    refine wp_snDumpToFile hL.base (fun _ _ => trivial) (fun _ _ _ _ => trivial)
      (fun _ _ h => absurd h hfalse) (fun _ _ _ _ h => absurd h hfalse)
      (fun _ _ _ _ _ _ h => absurd h hfalse) fun i q hfrom hpath hmem _ _ => ?_
    obtain rfl : path = q := Option.some.inj hpath
    obtain ⟨-, -, hfind⟩ := (hL.ready env).slot hL.consistent hfrom.slot
    obtain ⟨-, (hlive : s.heap.Live block), hle⟩ := hL.consistent.of_find? hfind
    rw [registry_eq hL.base.rep]
    refine ⟨_, hfind, hle, (Finmap.lookup_insert _).trans ?_⟩
    rw [ClientHeap.readAt_of_live hlive]
    rfl
  exact hspec.done (replyStep_eq_some.mp hdump) rfl

/-- A mount that succeeds gives a new tracked block with the bytes of the file. -/
theorem mounted (hb : Base s₁ L) (hfile : s₁.files.lookup path = some content)
    (hlen : content.length < addressSpace)
    (hmount : replyStep cfg (env, .mountFileToRam (some path)) s₁ = some (.addr p, s₂))
    (hp : p ≠ NULL) :
    ¬ s₁.heap.Live p ∧ s₂.heap.bytes p = content ∧
      s₂.items = s₁.items ++ [⟨env.node, p, UInt64.ofNat content.length, env.tid, 0⟩] := by
  have hspec : wlp (replying .addr (snMountFileToRam cfg (some path))) env (fun r s' =>
      ∀ p, r = .addr p → p ≠ NULL → ¬ s₁.heap.Live p ∧ s'.heap.bytes p = content ∧
        s'.items = s₁.items ++ [⟨env.node, p, UInt64.ofNat content.length, env.tid, 0⟩]) s₁ := by
    have hnull : ∀ {C : Addr → Prop} (p : Addr), Reply.addr NULL = .addr p → p ≠ NULL → C p :=
      fun p heq hp => absurd (Reply.addr.inj heq).symm hp
    rw [wlp, wp_replying]
    refine wp_snMountFileToRam hb (fun _ _ => trivial) (fun _ _ => hnull)
      (fun _ _ _ _ _ => trivial) (fun _ _ _ _ _ _ => trivial)
      (fun found size s' bytes hopens _ hbuf hread p hpr _ => ?_) fun _ _ s' _ _ _ _ _ => ?_
    · obtain rfl := Reply.addr.inj hpr
      obtain ⟨q, hq, hfound⟩ := hopens.found
      obtain rfl : path = q := Option.some.inj hq
      obtain rfl : content = found := Option.some.inj (hfile.symm.trans hfound)
      have hsize : size.toNat = content.length := by
        rw [hopens.size_eq]
        exact UInt64.toNat_ofNat_of_lt hlen
      have hbytes : bytes = content := by
        have hprefix := hbuf.read
        rw [List.take_of_length_le (hbuf.length.le.trans hread), hsize, List.take_length,
          List.take_of_length_le (hsize ▸ hread)] at hprefix
        exact hprefix
      refine ⟨hbuf.granted.admits.not_live, ?_, ?_⟩
      · rw [hbuf.granted.heap, ClientHeap.bytes_place_self, hbytes]
      · rw [LibSafetynet.items_eq (hbuf.granted.base hb), hbuf.items hb,
          LibSafetynet.items_eq hb, hopens.size_eq]
    · -- what is not read in full is not handed out
      rw [wp_bind]
      refine wlp_of_forall fun _ s₃ _ => ?_
      rw [snError, wp_bind]
      refine wlp_of_forall fun _ s₄ _ => ?_
      rw [wp_pure]
      exact hnull
  exact hspec.done (replyStep_eq_some.mp hmount) p rfl hp

end Dumped

/-- **A dump survives**: after any run of a client that respects the library, whenever
`sn_dump_to_file` returns true for a block and closing the file left all of it there, mounting
the file at the end of any further run in which no dump overwrites it gives null, or a new
block of the size recorded at the dump, with the bytes that the block had then, and an entry
for it at the end of the list. -/
theorem dump_survives {cfg : Config} {s₀ s s₁ s₂ s₃ : Lib} {pre ls : List (Env × Op)}
    {env env' : Env} {path : FileName} {block p : Addr} (h₀ : Started s₀)
    (hokPre : Along (libStep cfg) Respects pre s₀) (hpre : run (libStep cfg) pre s₀ = some s)
    (hdump : replyStep cfg (env, .dumpToFile (some path) block) s = some (.flag true, s₁))
    (hflush : addressSpace ≤ env.flushed)
    (hrun : run (libStep cfg) ls s₁ = some s₂) (hno : ∀ l ∈ ls, ¬ DumpsOver path l)
    (hmount : replyStep cfg (env', .mountFileToRam (some path)) s₂ = some (.addr p, s₃))
    (hp : p ≠ NULL) :
    ∃ t, s.registry.find? block = some t ∧ ¬ s₂.heap.Live p ∧
      s₃.heap.bytes p = (s.heap.bytes block).take t.size.toNat ∧
      s₃.items = s₂.items ++ [⟨env'.node, p, t.size, env'.tid, 0⟩] := by
  obtain ⟨L, hL⟩ := (loaded_of_started h₀).orderly.run hokPre hpre
  obtain ⟨t, hfind, hle, hfile⟩ := hL.dumped hdump
  have hlen : ((s.heap.bytes block).take t.size.toNat).length = t.size.toNat := by
    rw [List.length_take]
    exact Nat.min_eq_left hle
  have hspace : ((s.heap.bytes block).take t.size.toNat).length < addressSpace := by
    rw [hlen]
    exact t.size.toNat_lt
  rw [List.take_of_length_le (hspace.le.trans hflush)] at hfile
  have hreach : Reachable cfg s₂ := by
    have hdumped := libStep_of_reply hdump
    refine ⟨s₀, pre ++ (env, .dumpToFile (some path) block) :: ls, h₀, ?_⟩
    rw [run_append, hpre]
    exact (run_cons_eq_some _).mpr ⟨s₁, hdumped, hrun⟩
  obtain ⟨L₂, hb₂, -⟩ := hreach.base
  have hkept := run_keepsFile hfile hno hrun
  obtain ⟨hnew, hbytes, hitems⟩ := mounted hb₂ hkept hspace hmount hp
  rw [hlen, UInt64.ofNat_toNat] at hitems
  exact ⟨t, hfind, hnew, hbytes, hitems⟩

/-- A cached block is dumped and freed, the file is dumped to again, which finds it there, and
then mounted. -/
theorem dump_survives_at : ∃ s₀ s s₁ s₂ s₃ : Lib, Started s₀ ∧
    run (libStep ⟨true⟩) [(Env.plain 1 128 4096, .mallocPreInitialized 2 7),
      (Env.plain 1 0 0, .requestToFastCache 4096)] s₀ = some s ∧
    replyStep ⟨true⟩ (Env.plain 1 0 0, .dumpToFile (some [102]) 4096) s =
      some (.flag true, s₁) ∧
    run (libStep ⟨true⟩) [(Env.plain 1 0 0, .dumpToFile (some [102]) 4096),
      (Env.plain 1 0 0, .free 4096)] s₁ = some s₂ ∧
    replyStep ⟨true⟩ (Env.plain 2 192 8192, .mountFileToRam (some [102])) s₂ =
      some (.addr 8192, s₃) ∧
    ∃ t, s.registry.find? 4096 = some t ∧ ¬ s₂.heap.Live 8192 ∧
      s₃.heap.bytes 8192 = (s.heap.bytes 4096).take t.size.toNat ∧
      s₃.items = s₂.items ++ [⟨192, 8192, t.size, 2, 0⟩] := by
  have hsome : ((doinit (Env.plain 1 64 0) .blank).done?.bind fun s₀ =>
      (run (libStep ⟨true⟩) [(Env.plain 1 128 4096, .mallocPreInitialized 2 7),
        (Env.plain 1 0 0, .requestToFastCache 4096)] s₀).bind fun s =>
        (replyStep ⟨true⟩ (Env.plain 1 0 0, .dumpToFile (some [102]) 4096) s).bind fun q =>
          (run (libStep ⟨true⟩) [(Env.plain 1 0 0, .dumpToFile (some [102]) 4096),
            (Env.plain 1 0 0, .free 4096)] q.2).bind fun s₂ =>
            (replyStep ⟨true⟩ (Env.plain 2 192 8192, .mountFileToRam (some [102])) s₂).map
              fun q₃ => (q.1, q₃.1)) = some (.flag true, .addr 8192) := by
    decide +kernel
  obtain ⟨s₀, h₀, hrest⟩ := Option.bind_eq_some_iff.mp hsome
  obtain ⟨s, hpre, hrest⟩ := Option.bind_eq_some_iff.mp hrest
  obtain ⟨⟨r, s₁⟩, hdump, hrest⟩ := Option.bind_eq_some_iff.mp hrest
  obtain ⟨s₂, hrun, hrest⟩ := Option.bind_eq_some_iff.mp hrest
  obtain ⟨⟨r₃, s₃⟩, hmount, hval⟩ := Option.map_eq_some_iff.mp hrest
  obtain ⟨rfl, rfl⟩ := Prod.mk.inj hval
  have hokPre : Along (libStep ⟨true⟩) Respects
      [(Env.plain 1 128 4096, .mallocPreInitialized 2 7),
        (Env.plain 1 0 0, .requestToFastCache 4096)] s₀ :=
    ⟨⟨trivial, id⟩, fun _ _ => ⟨⟨trivial, id⟩, fun _ _ => trivial⟩⟩
  have hno : ∀ l ∈ [(Env.plain 1 0 0, Op.dumpToFile (some [102]) 4096),
      (Env.plain 1 0 0, Op.free 4096)], ¬ DumpsOver [102] l := by
    intro l hl
    simp only [List.mem_cons, List.not_mem_nil, or_false] at hl
    rcases hl with rfl | rfl <;> exact fun h => absurd h.2.1 (by decide)
  exact ⟨s₀, s, s₁, s₂, s₃, started_of_done h₀, hpre, hdump, hrun, hmount,
    dump_survives (started_of_done h₀) hokPre hpre hdump le_rfl hrun hno hmount (by decide)⟩

end LibSafetynet
