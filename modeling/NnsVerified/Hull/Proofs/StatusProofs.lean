import NnsVerified.Hull.Proofs.StatusTraceProofs

/-!
# What `GET /status` tells of a run

At every two moments of a run the telemetry of the first one is true of the kernel at the second one:
the last batch that it counts is in the log.
-/

namespace NnsVerified.Hull

open NnsVerified.Hoon NnsVerified.Library NnsVerified.Kernel

variable {H Z L Acc Vesl : Type} {c : Crates H Z L} {env : PeekEnv Acc Vesl}
  {trace : List FollowerEvent} [DecidableEq H] {turn : FollowerTurn}

/-! ## The moments of a run -/

/-- A trace, as a machine that takes its events. -/
def extend (trace : List FollowerEvent) (e : FollowerEvent) : List FollowerEvent × Option Unit :=
  (trace ++ [e], none)

@[simp] theorem final_extend (trace rest : List FollowerEvent) :
    final extend trace rest = trace ++ rest := by
  induction rest generalizing trace with
  | nil => exact (List.append_nil _).symm
  | cons e rest ih =>
    rw [final_cons, extend, ih, List.append_assoc, List.singleton_append]

/-- What a record says is true when it is made: a pass was told the tip, and the log ends with the
batch that is counted. -/
def FollowerEvent.Holds (env : Env Acc Vesl) (turns : List FollowerTurn)
    (trace : List FollowerEvent) : FollowerEvent → Prop
  | advanced tipHeight count => ∃ sent, Gains env sent (pokesOf trace) tipHeight.toNat count
  | sawTip tip => ∃ turn ∈ turns, turn.currentChainTip = .ok tip
  | _ => True

/-- All records of a trace were true when they were made. -/
def Truthful (env : Env Acc Vesl) (turns : List FollowerTurn) : List FollowerEvent → Prop :=
  Along extend [] fun trace e => e.Holds env turns trace

omit [DecidableEq H] in
theorem truthful_concat {turns : List FollowerTurn} {e : FollowerEvent} :
    Truthful env.toEnv turns (trace ++ [e]) ↔
      Truthful env.toEnv turns trace ∧ e.Holds env.toEnv turns trace := by
  unfold Truthful
  rw [along_concat, final_extend, List.nil_append]

omit [DecidableEq H] in
theorem Truthful.adds {turns : List FollowerTurn} {trace' : List FollowerEvent}
    (h : Truthful env.toEnv turns trace) (hturn : turn ∈ turns)
    (hadds : Adds (FollowerEvent.Quiet turn) trace trace') : Truthful env.toEnv turns trace' := by
  obtain ⟨new, rfl, hnew⟩ := hadds
  induction new using List.reverseRecOn with
  | nil => rwa [List.append_nil]
  | append_singleton new e ih =>
    obtain ⟨hnew, he⟩ := List.forall_mem_append.mp hnew
    rw [← List.append_assoc]
    refine truthful_concat.mpr ⟨ih hnew, ?_⟩
    have hquiet : e.Quiet turn := he e (List.mem_singleton_self e)
    cases e with
    | advanced tipHeight count => exact hquiet.elim
    | sawTip tip => exact ⟨turn, hturn, hquiet⟩
    | poked input => trivial
    | failed phase err => trivial

/-- What a pass records is true. -/
theorem Truthful.spawnTurn (hn : c.NounLaws) {turns : List FollowerTurn}
    (h : Truthful env.toEnv turns trace) (hturn : turn ∈ turns) :
    Truthful env.toEnv turns (spawnTurn c env trace turn) := by
  have hcases := tracedScan_cases env hn trace turn
  unfold Hull.spawnTurn
  generalize tracedScan c env trace turn = r at hcases ⊢
  cases hcases with
  | idle adds => exact h.adds hturn (adds.mono fun _ he => he.1)
  | failed adds => exact h.adds hturn (adds.concat trivial)
  | advanced adds gains => exact truthful_concat.mpr ⟨h.adds hturn adds, _, gains⟩

omit [DecidableEq H] in
/-- The tip that the hull remembers was told to a pass. -/
theorem Truthful.chainTip {turns : List FollowerTurn} (h : Truthful env.toEnv turns trace)
    (clock : Nat → UInt64) {tip : UInt64}
    (htip : (observed clock trace).lastChainTipHeight = some tip) :
    ∃ turn ∈ turns, turn.currentChainTip = .ok tip := by
  have hkeep : ∀ t e, ¬(∃ tip, e = FollowerEvent.sawTip tip) →
      (observed clock (extend t e).1).lastChainTipHeight
        = (observed clock t).lastChainTipHeight := by
    intro t e hother
    rw [extend, observed_concat]
    cases e with
    | sawTip tip => exact absurd ⟨tip, rfl⟩ hother
    | _ => rfl
  rcases last_write (f := fun t => (observed clock t).lastChainTipHeight)
    (P := fun _ e => ∃ tip, e = .sawTip tip) hkeep [] trace
    with ⟨-, hnone⟩ | ⟨pre, e, hlast, hwrite⟩
  · rw [final_extend, List.nil_append, htip] at hnone
    cases hnone
  · obtain ⟨⟨tip', rfl⟩, rest, rfl, -⟩ := hlast
    have hholds := h pre (.sawTip tip') ⟨rest, by simp⟩
    rw [final_extend, List.nil_append, htip, extend, observed_concat] at hwrite
    obtain rfl := Option.some.inj hwrite
    exact hholds

omit [DecidableEq H] in
/-- The batch that the hull remembers ended the log when it was recorded. -/
theorem Truthful.lastAdvance {turns : List FollowerTurn} (h : Truthful env.toEnv turns trace)
    (clock : Nat → UInt64) {height : UInt64} {count : Nat}
    (hheight : (observed clock trace).lastAdvanceTipHeight = some height)
    (hcount : (observed clock trace).lastAdvanceCount = some count) :
    ∃ pre sent, pre <+: trace ∧ Gains env.toEnv sent (pokesOf pre) height.toNat count := by
  have hkeep : ∀ t e, ¬(∃ height count, e = FollowerEvent.advanced height count) →
      ((observed clock (extend t e).1).lastAdvanceTipHeight,
        (observed clock (extend t e).1).lastAdvanceCount)
        = ((observed clock t).lastAdvanceTipHeight, (observed clock t).lastAdvanceCount) := by
    intro t e hother
    rw [extend, observed_concat]
    cases e with
    | advanced height count => exact absurd ⟨height, count, rfl⟩ hother
    | _ => rfl
  rcases last_write
    (f := fun t => ((observed clock t).lastAdvanceTipHeight, (observed clock t).lastAdvanceCount))
    (P := fun _ e => ∃ height count, e = .advanced height count) hkeep [] trace
    with ⟨-, hnone⟩ | ⟨pre, e, hlast, hwrite⟩
  · rw [final_extend, List.nil_append, hheight] at hnone
    cases (Prod.mk.inj hnone).1
  · obtain ⟨⟨height', count', rfl⟩, rest, rfl, -⟩ := hlast
    obtain ⟨sent, hgains⟩ := h pre (.advanced height' count') ⟨rest, by simp⟩
    rw [final_extend, List.nil_append, hheight, hcount, extend, observed_concat] at hwrite
    obtain ⟨hheight', hcount'⟩ := Prod.mk.inj hwrite
    obtain rfl := Option.some.inj hheight'
    obtain rfl := Option.some.inj hcount'
    rw [final_extend, List.nil_append] at hgains
    exact ⟨pre, sent, List.prefix_append _ _, hgains⟩

/-! ## The shown status -/

/-- The last block of linked blocks is at the cursor. -/
theorem cursorHeight_of_getLast {bs : List ScanBlock} (hlinked : Linked bs) {height : Nat}
    (hlast : bs.getLast?.map ScanBlock.height = some height) : cursorHeight bs = height := by
  obtain ⟨b, hb, rfl⟩ := Option.map_eq_some_iff.mp hlast
  have hne : bs ≠ [] := by
    rintro rfl
    cases hb
  have hpos := List.length_pos_of_ne_nil hne
  rw [List.getLast?_eq_getElem?, List.getElem?_eq_getElem (by omega)] at hb
  obtain rfl := Option.some.inj hb
  rw [hlinked.heights, cursorHeight, if_neg hne]
  omega

section

variable (hn : c.NounLaws) (hh : env.HashLaws) (hm : env.MapLaws)

include hh hm

omit [DecidableEq H] in
/-- A gain ends at the cursor. -/
theorem Gains.cursor {sent sent' : List Noun} {height count : Nat}
    (h : Gains env.toEnv sent sent' height count) :
    cursorHeight (runBlocks env.toEnv sent') = height := by
  obtain ⟨batch, hlog, -, hlast⟩ := h
  refine cursorHeight_of_getLast (Kernel.runInv hh hm sent').linked ?_
  obtain ⟨b, hb, hheight⟩ := Option.map_eq_some_iff.mp hlast
  rw [hlog, List.getLast?_append, hb, Option.some_or, Option.map_some, hheight]

omit [DecidableEq H] hh hm in
/-- The shown lag, and when the follower is shown as caught up. -/
theorem lagStatus_eq {s : State Acc Vesl} {bs : List ScanBlock} (h : RunInv env.toEnv bs s)
    {st : ScanState} (hst : Mirrors st s) (tip : UInt64) :
    (lagStatus tip st.lastProvedHeight).1.toNat = tip.toNat - cursorHeight bs ∧
      ((lagStatus tip st.lastProvedHeight).2 = true ↔ tip.toNat - cursorHeight bs ≤ 11) := by
  have hlag : (saturatingSub tip st.lastProvedHeight).toNat = tip.toNat - cursorHeight bs := by
    rw [toNat_saturatingSub, hst.height, h.height]
  refine ⟨hlag, ?_⟩
  unfold lagStatus
  rw [decide_eq_true_iff, UInt64.le_iff_toNat_le, hlag]
  rfl

end

/-- A pass that reads the sample chain up to a tip, in a server whose hull is free. -/
def servedTurn (tip : UInt64) : FollowerTurn := ⟨servedTick sampleServed tip, true⟩

/-- Settings of a server. -/
def sampleSettlement : SettlementStatus := ⟨"fakenet", some "http://127.0.0.1:5555"⟩

end NnsVerified.Hull
