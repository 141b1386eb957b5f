import NnsVerified.Hull.BatchRun
import NnsVerified.Hull.Debug
import NnsVerified.Hull.Proofs.RegistrationProofs
import NnsVerified.Hull.Proofs.WalletProofs
import NnsVerified.Kernel.Proofs.ListViewProofs

/-!
# What the debug route lists

The listing of `/kernel-debug` is the registry: it names each row once, in the order of the cords,
its size and cursor are those of `/scan-state`, and a name is in it exactly when a lookup of the
name answers, with the same row.
-/

namespace NnsVerified.Hull

open NnsVerified.Hoon NnsVerified.Library NnsVerified.Kernel

variable {H Z L Acc Vesl : Type} {c : Crates H Z L} {env : PeekEnv Acc Vesl}
  {views : GraftViews Vesl} {s : State Acc Vesl}

/-! ## The answer of the kernel -/

theorem peekNoun_kernelDebug (hn : c.NounLaws) {seeded : Acc}
    (hseeded : ensureGenesisTld env.toEnv s.accumulator = .ok seeded) :
    peekNoun (env.withDebug views) s (buildKernelDebugPeek c) = (do
      let value ← kernelDebug env views s
      pure (Noun.tuple (.atom 0) [.atom 0, value])) := by
  have hother : Peek.ofPath kernelDebugPath = none := by decide
  have hpath : buildKernelDebugPeek c = kernelDebugPath := singleTagPeek_eq hn _
  have hseeded' : ensureGenesisTld (env.withDebug views).toEnv s.accumulator = .ok seeded := hseeded
  have hdebug : (env.withDebug views).otherPeek s kernelDebugPath = (do
      let value ← kernelDebug env views s
      pure (some (some value))) := by
    simp only [PeekEnv.withDebug, if_pos]
  unfold peekNoun peek
  rw [hpath, hother, hseeded', ok_bind]
  dsimp only
  rw [hdebug]
  cases kernelDebug env views s <;> rfl

/-! ## Decoding -/

theorem listElements_list (ns : List Noun) : listElements (.list ns) = ns := by
  induction ns with
  | nil => rfl
  | cons n ns ih => exact congrArg (n :: ·) ih

/-- A list that decodes has decoded item by item. -/
theorem forall₂_of_mapM {α β : Type} {f : α → Except String β} {xs : List α} {ys : List β}
    (h : xs.mapM f = .ok ys) : List.Forall₂ (fun x y => f x = .ok y) xs ys := by
  induction xs generalizing ys with
  | nil =>
    obtain rfl := Except.ok.inj h
    exact .nil
  | cons x xs ih =>
    rw [List.mapM_cons] at h
    obtain ⟨y, hy, h⟩ := bind_eq_ok h
    obtain ⟨rest, hrest, h⟩ := bind_eq_ok h
    obtain rfl := Except.ok.inj h
    exact .cons hy (ih hrest)

theorem mapM_ok {α β : Type} {f : α → Except String β} {xs : List α}
    (h : ∀ x ∈ xs, ∃ y, f x = .ok y) : ∃ ys, xs.mapM f = .ok ys := by
  induction xs with
  | nil => exact ⟨[], rfl⟩
  | cons x xs ih =>
    obtain ⟨y, hy⟩ := h x List.mem_cons_self
    obtain ⟨ys, hys⟩ := ih fun x' hx' => h x' (List.mem_cons_of_mem _ hx')
    refine ⟨y :: ys, ?_⟩
    rw [List.mapM_cons, hy, ok_bind, hys]
    rfl

/-- The listed row of an entry that a lookup has decoded. -/
def AccumulatorEntry.listed (a : AccumulatorEntry) : KernelDebugNameEntry :=
  ⟨a.name, a.owner, hexEncode a.txHash, a.claimHeight, hexEncode a.blockDigest⟩

variable {e : NnsAccumulatorEntry}

theorem decodeAccumulatorEntry_eq_ok {a : AccumulatorEntry} :
    decodeAccumulatorEntry c (Noun.tuple (.atom 0) [.atom 0, unitNoun (some e.noun)])
      = .ok (some a) ↔
    asCord c (.atom e.name) = .ok a.name ∧ asCord c (.atom e.owner) = .ok a.owner ∧
      c.asNeBytes e.txHash = a.txHash ∧ asU64 c (.atom e.claimHeight) = .ok a.claimHeight ∧
      c.asNeBytes e.blockDigest = a.blockDigest := by
  have hdecode : decodeAccumulatorEntry c (Noun.tuple (.atom 0) [.atom 0, unitNoun (some e.noun)])
      = (do
        let name ← asCord c (.atom e.name)
        let owner ← asCord c (.atom e.owner)
        let claimHeight ← (asU64 c (.atom e.claimHeight)).mapError fun _ =>
          "accumulator: claim_height overflows u64"
        return some ⟨name, owner, c.asNeBytes e.txHash, claimHeight,
          c.asNeBytes e.blockDigest⟩) := rfl
  rw [hdecode]
  simp only [bind_eq_ok_iff, mapError_eq_ok, pure_eq_ok, Except.ok.injEq, Option.some.injEq]
  constructor
  · rintro ⟨name, hname, owner, howner, claimHeight, hheight, rfl⟩
    exact ⟨hname, howner, rfl, hheight, rfl⟩
  · obtain ⟨name, owner, txHash, claimHeight, blockDigest⟩ := a
    rintro ⟨hname, howner, rfl, hheight, rfl⟩
    exact ⟨name, hname, owner, howner, claimHeight, hheight, rfl⟩

/-- A row is listed exactly when a lookup decodes it, with the same fields. -/
theorem decodeKernelDebugNameRow_eq_ok {row : KernelDebugNameEntry} :
    decodeKernelDebugNameRow c e.noun = .ok row ↔ ∃ a, decodeAccumulatorEntry c
      (Noun.tuple (.atom 0) [.atom 0, unitNoun (some e.noun)]) = .ok (some a) ∧ a.listed = row := by
  have hdecode : decodeKernelDebugNameRow c e.noun = (do
      let name ← asCord c (.atom e.name)
      let owner ← asCord c (.atom e.owner)
      let claimHeight ← (asU64 c (.atom e.claimHeight)).mapError fun _ =>
        "kernel-debug: claim_height overflows u64"
      return ⟨name, owner, hexEncode (c.asNeBytes e.txHash), claimHeight,
        hexEncode (c.asNeBytes e.blockDigest)⟩) := rfl
  rw [hdecode]
  simp only [bind_eq_ok_iff, mapError_eq_ok, pure_eq_ok, Except.ok.injEq,
    decodeAccumulatorEntry_eq_ok]
  constructor
  · rintro ⟨name, hname, owner, howner, claimHeight, hheight, rfl⟩
    exact ⟨⟨name, owner, _, claimHeight, _⟩, ⟨hname, howner, rfl, hheight, rfl⟩, rfl⟩
  · rintro ⟨⟨name, owner, txHash, claimHeight, blockDigest⟩, ⟨hname, howner, rfl, hheight, rfl⟩,
      rfl⟩
    exact ⟨name, hname, owner, howner, claimHeight, hheight, rfl⟩

/-- A row that the hull can read. -/
structure Readable (c : Crates H Z L) (e : NnsAccumulatorEntry) : Prop where
  name : ∃ text, asCord c (.atom e.name) = .ok text
  owner : ∃ text, asCord c (.atom e.owner) = .ok text
  claimHeight : e.claimHeight < 2 ^ 64

theorem exists_row_iff (hn : c.NounLaws) :
    (∃ row, decodeKernelDebugNameRow c e.noun = .ok row) ↔ Readable c e := by
  simp only [decodeKernelDebugNameRow_eq_ok, decodeAccumulatorEntry_eq_ok]
  constructor
  · rintro ⟨row, a, ⟨hname, howner, -, hheight, -⟩, -⟩
    have hnum := asU64_ok hn hheight
    exact ⟨⟨_, hname⟩, ⟨_, howner⟩, hnum ▸ a.claimHeight.toNat_lt⟩
  · rintro ⟨⟨name, hname⟩, ⟨owner, howner⟩, hheight⟩
    exact ⟨_, ⟨name, owner, _, _, _⟩, ⟨hname, howner, rfl, asU64_atom hn hheight, rfl⟩, rfl⟩

/-! ## The state that is told -/

theorem scanStateOf_eq_ok (hn : c.NounLaws) {seeded : Acc}
    (hseeded : ensureGenesisTld env.toEnv s.accumulator = .ok seeded) {st : ScanState} :
    scanStateOf c env s = .ok st ↔ ∃ root, rootAtom env.toEnv s.accumulator = .ok root ∧
      s.lastProvedHeight < 2 ^ 64 ∧ size env.toEnv s.accumulator < 2 ^ 64 ∧
      st = ⟨UInt64.ofNat s.lastProvedHeight, c.asNeBytes s.lastProvedDigest, c.asNeBytes root,
        UInt64.ofNat (size env.toEnv s.accumulator)⟩ := by
  unfold scanStateOf
  rw [buildScanStatePeek_eq hn, peekNoun_path, hseeded, ok_bind]
  show (((peekScanState env.toEnv s).bind _).mapError _).bind _ = _ ↔ _
  unfold peekScanState
  cases hroot : rootAtom env.toEnv s.accumulator with
  | error e => simp [bind, Except.bind, Except.mapError]
  | ok root =>
    show (decodeScanState c _).mapError _ = _ ↔ _
    rw [mapError_eq_ok]
    refine (decodeScanState_eq_ok hn _ _ _ _ st).trans ?_
    simp

/-- The hull decodes the answer part by part. -/
theorem decodeKernelDebug_answer (hn : c.NounLaws) (height digest root size : Nat)
    (accs regs settled : List Noun) (lp : Noun) :
    decodeKernelDebug c (Noun.tuple (.atom 0) [.atom 0, Noun.tuple (.atom 0) [.atom height,
        .atom digest, .atom root, .atom size, .list accs, .list regs, .list settled, lp]]) = (do
      let lastProvedHeight ← (asU64 c (.atom height)).mapError fun _ =>
        "kernel-debug: height overflows u64"
      let accumulatorSize ← (asU64 c (.atom size)).mapError fun _ =>
        "kernel-debug: size overflows u64"
      let names ← accs.mapM (decodeKernelDebugNameRow c)
      let registered ← regs.mapM (decodeRegistered c)
      let settledNoteIds ← settled.mapM (asNeBytes c)
      let lastProved ← decodeOptionalJamPair c lp
      return {
        version := 0
        lastProvedHeight
        lastProvedDigestHex := hexEncode (c.asNeBytes digest)
        accumulatorRootHex := hexEncode (c.asNeBytes root)
        accumulatorSize
        names
        vesl := ⟨registered, settledNoteIds.map hexEncode⟩
        lastProved }) := by
  unfold decodeKernelDebug
  simp only [peekUnwrapSome, peekUnwrapInner, isAtom, tail, uncons, Noun.tuple, Except.map,
    pure_eq_ok, ok_bind, Bool.false_eq_true, if_false, listElements_list,
    asU64_atom hn (show 0 < 2 ^ 64 by decide)]
  rfl

/-- What a listing has read off the state. -/
structure ListsState (c : Crates H Z L) (env : PeekEnv Acc Vesl) (s : State Acc Vesl)
    (r : KernelDebugResponse) : Prop where
  scanState : ∃ st, scanStateOf c env s = .ok st ∧ r.lastProvedHeight = st.lastProvedHeight ∧
    r.lastProvedDigestHex = hexEncode st.lastProvedDigest ∧
    r.accumulatorRootHex = hexEncode st.accumulatorRoot ∧ r.accumulatorSize = st.accumulatorSize
  names : List.Forall₂ (fun e row => decodeKernelDebugNameRow c e.noun = .ok row)
    (debugRows env s) r.names

theorem debugKernelState_spec (hn : c.NounLaws) {seeded : Acc}
    (hseeded : ensureGenesisTld env.toEnv s.accumulator = .ok seeded) {r : KernelDebugResponse}
    (h : debugKernelState c (env.withDebug views) s = .ok r) : ListsState c env s r := by
  unfold debugKernelState at h
  rw [peekNoun_kernelDebug hn hseeded] at h
  obtain ⟨answer, hanswer, h⟩ := bind_eq_ok h
  obtain ⟨value, hvalue, hanswer⟩ := bind_eq_ok (mapError_eq_ok.mp hanswer)
  obtain rfl := Except.ok.inj hanswer
  obtain ⟨root, hroot, hvalue⟩ := bind_eq_ok hvalue
  obtain rfl := Except.ok.inj hvalue
  replace h := mapError_eq_ok.mp h
  rw [decodeKernelDebug_answer hn] at h
  obtain ⟨height, hheight, h⟩ := bind_eq_ok h
  obtain ⟨total, htotal, h⟩ := bind_eq_ok h
  obtain ⟨names, hnames, h⟩ := bind_eq_ok h
  obtain ⟨registered, -, h⟩ := bind_eq_ok h
  obtain ⟨settled, -, h⟩ := bind_eq_ok h
  obtain ⟨lastProved, -, h⟩ := bind_eq_ok h
  obtain rfl := Except.ok.inj h
  have hheight := asU64_ok hn (mapError_eq_ok.mp hheight)
  have htotal := asU64_ok hn (mapError_eq_ok.mp htotal)
  have hst : scanStateOf c env s = .ok ⟨height, c.asNeBytes s.lastProvedDigest, c.asNeBytes root,
      total⟩ := by
    refine (scanStateOf_eq_ok hn hseeded).mpr ⟨root, hroot, hheight ▸ height.toNat_lt,
      htotal ▸ total.toNat_lt, ?_⟩
    rw [← hheight, ← htotal, UInt64.ofNat_toNat, UInt64.ofNat_toNat]
  exact {
    scanState := ⟨_, hst, rfl, rfl, rfl, rfl⟩
    names := List.forall₂_map_left_iff.mp (forall₂_of_mapM hnames) }

theorem debugKernelState_ok (hn : c.NounLaws) {seeded : Acc}
    (hseeded : ensureGenesisTld env.toEnv s.accumulator = .ok seeded) {st : ScanState}
    (hst : scanStateOf c env s = .ok st) (hrows : ∀ e ∈ debugRows env s, Readable c e) :
    ∃ r, debugKernelState c (env.withDebug views) s = .ok r := by
  obtain ⟨root, hroot, hheight, hsize, -⟩ := (scanStateOf_eq_ok hn hseeded).mp hst
  obtain ⟨names, hnames⟩ : ∃ names, ((debugRows env s).map NnsAccumulatorEntry.noun).mapM
      (decodeKernelDebugNameRow c) = .ok names := by
    refine mapM_ok fun n hmem => ?_
    obtain ⟨e, he, rfl⟩ := List.mem_map.mp hmem
    exact (exists_row_iff hn).mpr (hrows e he)
  obtain ⟨registered, hregistered⟩ : ∃ registered,
      ((sort (fun a b => decide (a.1 < b.1)) (views.registered s.vesl)).map fun r =>
        Noun.cell (.atom r.1) (.atom r.2)).mapM (decodeRegistered c) = .ok registered := by
    refine mapM_ok fun n hmem => ?_
    obtain ⟨pair, -, rfl⟩ := List.mem_map.mp hmem
    exact ⟨_, rfl⟩
  obtain ⟨settled, hsettled⟩ : ∃ settled,
      ((sort (fun a b => decide (a < b)) (views.settled s.vesl)).map Noun.atom).mapM
        (asNeBytes c) = .ok settled := by
    refine mapM_ok fun n hmem => ?_
    obtain ⟨id, -, rfl⟩ := List.mem_map.mp hmem
    exact ⟨_, rfl⟩
  obtain ⟨lastProved, hproved⟩ : ∃ lastProved, decodeOptionalJamPair c (unitNoun
      (s.lastProved.map fun u => Noun.cell (.atom (env.jam u.1)) (.atom (env.jam u.2))))
        = .ok lastProved := by
    cases s.lastProved with
    | none => exact ⟨none, rfl⟩
    | some inputs => exact ⟨_, rfl⟩
  unfold debugKernelState
  rw [peekNoun_kernelDebug hn hseeded]
  unfold kernelDebug
  dsimp only
  rw [hroot]
  show ∃ r, (decodeKernelDebug c _).mapError _ = .ok r
  rw [decodeKernelDebug_answer hn, asU64_atom hn hheight, asU64_atom hn hsize, hnames, hregistered,
    hsettled, hproved]
  exact ⟨_, rfl⟩

/-! ## The listing -/

/-- The listing has the rows of the accumulator. -/
theorem debugRows_perm (env : PeekEnv Acc Vesl) (s : State Acc Vesl) :
    (debugRows env s).Perm (rows env.toEnv s.accumulator) := by
  have hrows : (toList env.toEnv s.accumulator).map debugRow = rows env.toEnv s.accumulator := by
    unfold toList rows
    rw [List.map_map]
    rfl
  rw [← hrows]
  exact sort_perm _ _

/-- No two listed rows have one name, and their names go up. -/
theorem debugRows_pairwise (hh : env.HashLaws) (hm : env.MapLaws)
    (hins : Inserted env.toEnv s.accumulator) :
    ((debugRows env s).map NnsAccumulatorEntry.name).Pairwise (· < ·) := by
  have hsorted : ((debugRows env s).map NnsAccumulatorEntry.name).Pairwise (· ≤ ·) :=
    List.pairwise_map.mpr (sort_pairwise NnsAccumulatorEntry.name _)
  have hnodup : ((debugRows env s).map NnsAccumulatorEntry.name).Nodup := by
    refine ((debugRows_perm env s).map _).nodup_iff.mpr ?_
    unfold rows
    rw [List.map_map]
    exact hins.names_nodup hh hm
  exact hsorted.imp₂ (fun _ _ hle hne => lt_of_le_of_ne hle hne) hnodup

theorem ListsState.cords (hn : c.NounLaws) {r : KernelDebugResponse} (h : ListsState c env s r) :
    r.names.map (fun row => cord row.name) = (debugRows env s).map NnsAccumulatorEntry.name := by
  have hnames := h.names
  generalize debugRows env s = entries at hnames
  generalize r.names = listed at hnames
  induction hnames with
  | nil => rfl
  | cons hrow _ ih =>
    obtain ⟨a, hdecode, rfl⟩ := decodeKernelDebugNameRow_eq_ok.mp hrow
    exact congrArg₂ List.cons (cord_asCord hn (decodeAccumulatorEntry_eq_ok.mp hdecode).1) ih

theorem ListsState.listed_of_mem {r : KernelDebugResponse} (h : ListsState c env s r)
    {e : NnsAccumulatorEntry} (he : e ∈ debugRows env s) :
    ∃ row ∈ r.names, decodeKernelDebugNameRow c e.noun = .ok row := by
  obtain ⟨i, rfl⟩ := List.mem_iff_get.mp he
  have hi : i.1 < r.names.length := h.names.length_eq ▸ i.2
  exact ⟨_, List.get_mem _ _, h.names.get i.2 hi⟩

theorem ListsState.mem_of_listed {r : KernelDebugResponse} (h : ListsState c env s r)
    {row : KernelDebugNameEntry} (hrow : row ∈ r.names) :
    ∃ e ∈ debugRows env s, decodeKernelDebugNameRow c e.noun = .ok row := by
  obtain ⟨i, rfl⟩ := List.mem_iff_get.mp hrow
  have hi : i.1 < (debugRows env s).length := h.names.length_eq.symm ▸ i.2
  exact ⟨_, List.get_mem _ _, h.names.get hi i.2⟩

/-- A name is listed with the answer of its lookup. -/
theorem ListsState.answers (hn : c.NounLaws) (hh : env.HashLaws) (hm : env.MapLaws)
    {r : KernelDebugResponse} (h : ListsState c env s r) (hins : Inserted env.toEnv s.accumulator)
    {name : String} (hname : NoNul name) (hfree : KeyFree env.toEnv s.accumulator (cord name)) :
    ∃ found, registryAnswer c env s name = .ok found ∧
      found.map AccumulatorEntry.listed = r.names.find? fun row => row.name = name := by
  have hget := get_eq hh hm (hins.built hh hm) (cord name)
  have hcords : (r.names.map fun row => cord row.name).Nodup := by
    rw [h.cords hn]
    exact (debugRows_pairwise hh hm hins).imp fun hlt => hlt.ne
  rw [registryAnswer_eq hn hh hm hins hget]
  cases hview : env.zBy.view s.accumulator (keyOf env.toEnv (cord name)) with
  | none =>
    refine ⟨none, rfl, (List.find?_eq_none.mpr fun row hrow heq => ?_).symm⟩
    -- a listed row of the name would be found
    have hmem : cord row.name ∈ (debugRows env s).map NnsAccumulatorEntry.name := by
      rw [← h.cords hn]
      exact List.mem_map_of_mem hrow
    obtain ⟨e, he, hcord⟩ := List.mem_map.mp hmem
    have hfound := (hins.mem_rows hh hm e).mp ((debugRows_perm env s).mem_iff.mp he)
    rw [hcord, of_decide_eq_true heq, hview] at hfound
    cases hfound
  | some e =>
    obtain ⟨hrow, hkey⟩ := (hins.view_eq_some hh hm _ e).mp hview
    have hnamed := hfree e hrow hkey
    obtain ⟨row, hlisted, hdecode⟩ := h.listed_of_mem ((debugRows_perm env s).mem_iff.mpr hrow)
    obtain ⟨a, ha, rfl⟩ := decodeKernelDebugNameRow_eq_ok.mp hdecode
    have htext := (decodeAccumulatorEntry_eq_ok.mp ha).1
    have hsame : a.listed.name = name := cord_inj_of_noNul hn (noNul_of_asCord htext) hname
      ((cord_asCord hn htext).trans hnamed)
    refine ⟨some a, ha, ?_⟩
    have hsome : (r.names.find? fun row => row.name = name).isSome :=
      List.find?_isSome.mpr ⟨_, hlisted, decide_eq_true hsame⟩
    obtain ⟨row', hfind⟩ := Option.isSome_iff_exists.mp hsome
    have hrow' : row'.name = name := by simpa using List.find?_some hfind
    rw [hfind]
    have hmem := List.mem_of_find?_eq_some hfind
    refine congrArg some (List.inj_on_of_nodup_map hcords hlisted hmem ?_)
    rw [hsame, hrow']

/-- In every run, the debug route answers exactly when `/scan-state` does and every row can be read. Its
listing names each row once, in the order of the cords, with the cursor, root and size of
`/scan-state`, and a name is listed as its lookup answers. -/
theorem debug_lists_registry (hn : c.NounLaws) (hh : env.HashLaws) (hm : env.MapLaws)
    (views : GraftViews Vesl) (inputs : List Noun) :
    ((∃ r, debugKernelState c (env.withDebug views) (runState env.toEnv inputs) = .ok r) ↔
      (∃ st, scanStateOf c env (runState env.toEnv inputs) = .ok st) ∧
        ∀ e ∈ rows env.toEnv (runState env.toEnv inputs).accumulator, Readable c e) ∧
    ∀ r, debugKernelState c (env.withDebug views) (runState env.toEnv inputs) = .ok r →
      (r.names.map fun row => cord row.name).Pairwise (· < ·) ∧
      r.accumulatorSize.toNat = r.names.length ∧
      (∃ st, scanStateOf c env (runState env.toEnv inputs) = .ok st ∧
        r.lastProvedHeight = st.lastProvedHeight ∧
        r.lastProvedDigestHex = hexEncode st.lastProvedDigest ∧
        r.accumulatorRootHex = hexEncode st.accumulatorRoot ∧
        r.accumulatorSize = st.accumulatorSize) ∧
      ∀ name, NoNul name →
        KeyFree env.toEnv (runState env.toEnv inputs).accumulator (cord name) →
        ∃ found, registryAnswer c env (runState env.toEnv inputs) name = .ok found ∧
          found.map AccumulatorEntry.listed = r.names.find? fun row => row.name = name := by
  have hins := (runInv hh hm inputs).inserted
  obtain ⟨seeded, hseeded, -⟩ := ensureGenesisTld_spec hh hm hins
  refine ⟨⟨?_, ?_⟩, fun r hr => ?_⟩
  · rintro ⟨r, hr⟩
    have hlists := debugKernelState_spec hn hseeded hr
    obtain ⟨st, hst, -⟩ := hlists.scanState
    refine ⟨⟨st, hst⟩, fun e he => (exists_row_iff hn).mp ?_⟩
    obtain ⟨row, -, hrow⟩ := hlists.listed_of_mem ((debugRows_perm env _).mem_iff.mpr he)
    exact ⟨row, hrow⟩
  · rintro ⟨⟨st, hst⟩, hrows⟩
    exact debugKernelState_ok hn hseeded hst fun e he =>
      hrows e ((debugRows_perm env _).mem_iff.mp he)
  · have hlists := debugKernelState_spec hn hseeded hr
    refine ⟨?_, ?_, hlists.scanState, fun name hname hfree =>
      hlists.answers hn hh hm hins hname hfree⟩
    · rw [hlists.cords hn]
      exact debugRows_pairwise hh hm hins
    · obtain ⟨st, hst, -, -, -, hsize⟩ := hlists.scanState
      obtain ⟨root, -, -, hlt, rfl⟩ := (scanStateOf_eq_ok hn hseeded).mp hst
      rw [hsize, UInt64.toNat_ofNat_of_lt' hlt, ← hlists.names.length_eq,
        (debugRows_perm env _).length_eq, ← hins.length_toList hh hm, toList, rows,
        List.length_map, List.length_map]

/-- A graft with two registered hulls, listed in another order, and no settled notes. -/
def sampleViews : GraftViews Unit where
  registered _ := [(5, 8), (2, 7)]
  settled _ := []

theorem debug_lists_registry_contested : ∃ r,
    debugKernelState sampleCrates (samplePeekEnv.withDebug sampleViews)
      (runState sampleEnv [contestedBlock.noun]) = .ok r ∧
    (r.names.map fun row => cord row.name).Pairwise (· < ·) ∧
    r.accumulatorSize.toNat = r.names.length ∧
    ∃ found, registryAnswer sampleCrates samplePeekEnv (runState sampleEnv [contestedBlock.noun])
        "a.nock" = .ok found ∧
      found.map AccumulatorEntry.listed = r.names.find? fun row => row.name = "a.nock" := by
  have hsome : (debugKernelState sampleCrates (samplePeekEnv.withDebug sampleViews)
      (runState sampleEnv [contestedBlock.noun])).toOption.isSome = true := by
    decide +kernel
  obtain ⟨r, hr⟩ := Option.isSome_iff_exists.mp hsome
  have hok := toOption_eq_some.mp hr
  have hfree : KeyFree samplePeekEnv.toEnv (runState samplePeekEnv.toEnv
      [contestedBlock.noun]).accumulator (cord "a.nock") := by
    unfold KeyFree
    decide +kernel
  have hlists := @debug_lists_registry _ _ _ _ _ sampleCrates samplePeekEnv
    sampleCrates_nounLaws sampleEnv_hashLaws sampleEnv_mapLaws sampleViews [contestedBlock.noun]
  obtain ⟨hsorted, hsize, -, hanswers⟩ := hlists.2 r hok
  exact ⟨r, hok, hsorted, hsize, hanswers "a.nock" (by simp [NoNul]) hfree⟩

/-! ## On a linked chain -/

section

variable [DecidableEq H] {chain : LinkedChain c} {k : Nat} {sent : List Noun}

/-- A registry of a chain has the reserved row, and rows of paid claims. -/
theorem ScannedTo.mem_rows (hl : c.LimbLaws) (hz : c.ZSetLaws) (hh : env.HashLaws)
    (hm : env.MapLaws) (h : ScannedTo chain env.toEnv k sent) (hlists : chain.Lists c)
    {e : NnsAccumulatorEntry} (he : e ∈ rows env.toEnv (runState env.toEnv sent).accumulator) :
    e = genesisTldEntry ∨ ∃ q ∈ chain.paid k, e = ⟨cord q.2.name, cord q.2.owner,
      leValue q.2.txHash, q.1.toNat, leValue (chain.blockAt q.1).pageDigest⟩ := by
  rcases List.mem_cons.mp ((h.runInv hh hm).mem_rows hh hm he) with rfl | he
  · exact Or.inl rfl
  rw [chain.validClaimsOf_log hl hz hlists, List.map_map] at he
  obtain ⟨q, hq, rfl⟩ := List.mem_map.mp he
  obtain ⟨ids, claims, -, -, hblock⟩ := blockOf_eq_ok.mp (chain.prepared q.1)
  rw [chain.height_eq] at hblock
  refine Or.inr ⟨q, (List.mem_filter.mp hq).1, ?_⟩
  simp only [Function.comp_apply, hblock]
  rfl

/-- On a linked chain the debug route always answers, with the reserved row and rows of paid claims. -/
theorem debug_answers (hn : c.NounLaws) (hl : c.LimbLaws) (hz : c.ZSetLaws) (hh : env.HashLaws)
    (hm : env.MapLaws) (views : GraftViews Vesl) (chain : LinkedChain c) (hlists : chain.Lists c)
    (ticks : List Tick) (hhonest : ∀ t ∈ ticks, t.Honest chain) :
    ∃ k r, runBlocks env.toEnv (followerPokes c env ticks) = chain.log k ∧
      debugKernelState c (env.withDebug views) (runState env.toEnv (followerPokes c env ticks))
        = .ok r ∧
      ∀ row ∈ r.names, row.name = "nock" ∨
        ∃ q ∈ chain.paid k, ∃ a, RowOf chain.toServedChain q a ∧ a.listed = row := by
  obtain ⟨k, -, hscanned, -⟩ : ∃ k, _ ∧
      ScannedTo chain env.toEnv k (followerPokes c env ticks) ∧ _ :=
    (ScannedTo.start chain env.toEnv).passes hh hm hn hhonest
  obtain ⟨seeded, hseeded, -⟩ := ensureGenesisTld_spec hh hm (hscanned.runInv hh hm).inserted
  obtain ⟨st, hst, -⟩ := hscanned.followerScanState hh hm hn
  -- each row decodes to the row of a paid claim
  have hrows : ∀ e ∈ debugRows env (runState env.toEnv (followerPokes c env ticks)),
      ∃ a, decodeKernelDebugNameRow c e.noun = .ok a.listed ∧ (a.name = "nock" ∨
        ∃ q ∈ chain.paid k, RowOf chain.toServedChain q a) := by
    intro e he
    rcases hscanned.mem_rows hl hz hh hm hlists ((debugRows_perm env _).mem_iff.mp he)
      with rfl | ⟨q, hq, rfl⟩
    · obtain ⟨a, hdecode, hname, -⟩ := @decodeAccumulatorEntry_row _ _ _ c hn "nock" "nock" 63000
        (by simp [NoNul]) 1 0
      exact ⟨a, decodeKernelDebugNameRow_eq_ok.mpr ⟨a, hdecode, rfl⟩, Or.inl hname⟩
    · obtain ⟨a, hdecode, hname, howner, htx, hheight, hdigest⟩ := @decodeAccumulatorEntry_row _ _ _
        c hn q.2.name q.2.owner q.1 (chain.noNul_paid hlists hq) (leValue q.2.txHash)
        (leValue (chain.blockAt q.1).pageDigest)
      exact ⟨a, decodeKernelDebugNameRow_eq_ok.mpr ⟨a, hdecode, rfl⟩,
        Or.inr ⟨q, hq, hname, howner, htx, hheight, hdigest⟩⟩
  obtain ⟨r, hr⟩ : ∃ r, debugKernelState c (env.withDebug views)
      (runState env.toEnv (followerPokes c env ticks)) = .ok r := by
    refine debugKernelState_ok hn hseeded hst fun e he => ?_
    obtain ⟨a, hdecode, -⟩ := hrows e he
    exact (exists_row_iff hn).mp ⟨_, hdecode⟩
  refine ⟨k, r, hscanned.log, hr, fun row hrow => ?_⟩
  obtain ⟨e, he, hlisted⟩ := (debugKernelState_spec hn hseeded hr).mem_of_listed hrow
  obtain ⟨a, hdecode, ha⟩ := hrows e he
  obtain rfl := Except.ok.inj (hdecode.symm.trans hlisted)
  rcases ha with ha | ⟨q, hq, ha⟩
  · exact Or.inl ha
  · exact Or.inr ⟨q, hq, a, ha, rfl⟩

end

theorem debug_answers_eve : ∃ r, debugKernelState sampleCrates
      (samplePeekEnv.withDebug sampleViews) (runState sampleEnv
        (followerPokes sampleCrates samplePeekEnv [servedTick paidServed 63010])) = .ok r ∧
    ∀ row ∈ r.names, row.name = "nock" ∨ ∃ k, ∃ q ∈ paidChain.paid k, ∃ a,
      RowOf paidServed q a ∧ a.listed = row := by
  obtain ⟨k, r, -, hok, hrows⟩ := @debug_answers _ _ _ _ _ sampleCrates samplePeekEnv _
    sampleCrates_nounLaws sampleCrates_limbLaws sampleCrates_zsetLaws sampleEnv_hashLaws
    sampleEnv_mapLaws sampleViews paidChain paidServed_lists [servedTick paidServed 63010]
    (List.forall_mem_singleton.mpr honest_servedTick_paid)
  refine ⟨r, hok, fun row hrow => ?_⟩
  rcases hrows row hrow with hname | ⟨q, hq, a, ha, hlisted⟩
  · exact Or.inl hname
  · exact Or.inr ⟨k, q, hq, a, ha, hlisted⟩

end NnsVerified.Hull
