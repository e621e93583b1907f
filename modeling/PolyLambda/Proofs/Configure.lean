import Mathlib.Data.List.Induction
import PolyLambda.Log.Sink

/-!
# PolyLambda.Proofs.Configure

Logging after any number of calls that configure it, with any lawful logger. A call takes effect if
nothing is configured yet, or if it is forced; otherwise it is skipped. A call that takes effect is
refused if its filter names a level that does not exist.

Once logging is configured, there is one handler, and the sinks are those of the last call that took
effect: the sink of its filter, or none if it was refused. In the second case the earlier sink is
gone, and the calls that follow are skipped unless they are forced, so that nothing is written.

* `Setup.call_skipped`, `call_refused` and `call_accepted`: what a call does.
* `Setup.LastEffect`: the last call that took effect, and the setup it was made in.
* `Setup.configured_sinks`: the handler and the sinks, after any calls.
* `standard_lawful`: the standard logger is lawful.
* `Logging.configured_without_sink`: a forced call takes the sink away.
-/

namespace PolyLambda.Log

/-- A call that configures logging: the filter that is set at that time, and whether the call is
forced. -/
structure Call where
  setting : Option String
  force : Bool

/-- The filter that a call asks for. -/
def Call.filter (c : Call) : Table Threshold :=
  (Filter.read none c.setting).modules

namespace Setup

variable {σ ε : Type} {L : Logger σ ε} {s : Setup σ} {c : Call} {calls : List Call}

/-- Whether a call takes effect in a setup. -/
def Heeds (s : Setup σ) (c : Call) : Prop :=
  s.configured = true → c.force = true

/-- What a call answers, and the setup after it. -/
def call (L : Logger σ ε) (s : Setup σ) (c : Call) : Except ε Unit × Setup σ :=
  s.configure L c.setting c.force

/-- The setup after some calls, whatever these have answered. -/
def after (L : Logger σ ε) (s : Setup σ) (calls : List Call) : Setup σ :=
  calls.foldl (fun s c => (s.call L c).2) s

/-- The last call is made after all others. -/
theorem after_concat : s.after L (calls ++ [c]) = ((s.after L calls).call L c).2 := by
  rw [after, List.foldl_append]
  rfl

/-! ## one call -/

/-- A call that does not take effect changes nothing. -/
theorem call_skipped (h : ¬ s.Heeds c) : s.call L c = (.ok (), s) := by
  rw [Heeds, Classical.not_imp] at h
  simp [call, configure, h]

/-- A call that takes effect removes the sinks before it adds one. -/
theorem call_heeded (h : s.Heeds c) : s.call L c =
    match L.add c.filter (L.remove s.logger) with
    | (.error e, logger) => (.error e, { s with logger })
    | (.ok (), logger) => (.ok (), ⟨true, logger, max 1 s.handlers⟩) := by
  have hskip : (s.configured && !c.force) = false := by
    cases hs : s.configured with
    | false => rfl
    | true => rw [h hs]; rfl
  rw [call, configure, hskip]
  rfl

/-- A refused call leaves no sink, and all else as it was: what was configured still counts as
configured. -/
theorem call_refused (hL : L.Lawful) (h : s.Heeds c) (hc : L.knows c.filter = false) :
    ∃ e logger, s.call L c = (.error e, { s with logger }) ∧ L.sinks logger = [] := by
  obtain ⟨e, logger, hadd, hsinks⟩ := hL.add_refuses c.filter (L.remove s.logger) hc
  refine ⟨e, logger, ?_, ?_⟩
  · rw [call_heeded h, hadd]
  · rw [hsinks, hL.remove_drops]

/-- An accepted call leaves the sink of its filter alone, and a handler. -/
theorem call_accepted (hL : L.Lawful) (h : s.Heeds c) (hc : L.knows c.filter = true) :
    ∃ logger, s.call L c = (.ok (), ⟨true, logger, max 1 s.handlers⟩) ∧
      L.sinks logger = [c.filter] := by
  obtain ⟨logger, hadd, hsinks⟩ := hL.add_installs c.filter (L.remove s.logger) hc
  refine ⟨logger, ?_, ?_⟩
  · rw [call_heeded h, hadd]
  · rw [hsinks, hL.remove_drops, List.nil_append]

/-! ## any number of calls -/

/-- There is one handler if logging is configured, and none before. -/
def Counted (s : Setup σ) : Prop :=
  s.handlers = if s.configured then 1 else 0

/-- One call keeps the handlers counted. -/
theorem Counted.call (hL : L.Lawful) (h : s.Counted) (c : Call) : (s.call L c).2.Counted := by
  by_cases hc : s.Heeds c
  · cases hknown : L.knows c.filter with
    | false =>
      obtain ⟨e, logger, hcall, -⟩ := call_refused hL hc hknown
      rw [hcall]
      exact h
    | true =>
      obtain ⟨logger, hcall, -⟩ := call_accepted hL hc hknown
      rw [hcall]
      have hle : s.handlers ≤ 1 := by
        rw [h]
        split <;> omega
      exact Nat.max_eq_left hle
  · rw [call_skipped hc]
    exact h

/-- So does any sequence of calls. -/
theorem Counted.after (hL : L.Lawful) (h : s.Counted) (calls : List Call) :
    (s.after L calls).Counted := by
  induction calls using List.reverseRecOn with
  | nil => exact h
  | append_singleton calls c ih =>
    rw [after_concat]
    exact ih.call hL c

/-- The last of some calls that took effect, and the setup in which it was made. The calls are made
one after another, beginning with the setup `start`. -/
inductive LastEffect (L : Logger σ ε) (start : Setup σ) : List Call → Setup σ → Call → Prop where
  | made {calls : List Call} {c : Call} (h : (start.after L calls).Heeds c) :
      LastEffect L start (calls ++ [c]) (start.after L calls) c
  | kept {calls : List Call} {s : Setup σ} {c skipped : Call} (h : LastEffect L start calls s c)
      (hskip : ¬ (start.after L calls).Heeds skipped) :
      LastEffect L start (calls ++ [skipped]) s c

variable {start : Setup σ}

/-- A call that has an effect is heeded. -/
theorem LastEffect.heeds (h : LastEffect L start calls s c) : s.Heeds c := by
  induction h with
  | made h => exact h
  | kept _ _ ih => exact ih

/-- Calls that are skipped leave the setup as the last call that took effect made it. -/
theorem LastEffect.after_eq (h : LastEffect L start calls s c) :
    start.after L calls = (s.call L c).2 := by
  induction h with
  | made _ => exact after_concat
  | kept _ hskip ih => rw [after_concat, call_skipped hskip, ih]

/-- Where logging has become configured, some call took effect. -/
theorem exists_lastEffect (hstart : start.configured = false)
    (h : (start.after L calls).configured = true) : ∃ s c, LastEffect L start calls s c := by
  -- calls are taken from the end: the last one took effect, or it was skipped and does not matter
  induction calls using List.reverseRecOn with
  | nil => exact absurd (hstart.symm.trans h) Bool.false_ne_true
  | append_singleton calls c ih =>
    by_cases hc : (start.after L calls).Heeds c
    · exact ⟨_, c, .made hc⟩
    · rw [after_concat, call_skipped hc] at h
      obtain ⟨s, c', hlast⟩ := ih h
      exact ⟨s, c', .kept hlast hc⟩

/-- With a lawful logger, begin where nothing is configured and there is no handler. Whenever
logging is configured, there is one handler; and if the last call that took effect was not refused,
there is one sink, with the filter of this call. If it was refused, which it is exactly if its
filter names a level that does not exist, there is no sink. -/
theorem configured_sinks (hL : L.Lawful) (hstart : start.configured = false)
    (hhandlers : start.handlers = 0) (calls : List Call)
    (h : (start.after L calls).configured = true) :
    (start.after L calls).handlers = 1 ∧
      ∃ s c, LastEffect L start calls s c ∧
        ((s.configure L c.setting c.force).1 = .ok () →
          L.sinks (start.after L calls).logger = [(Filter.read none c.setting).modules]) ∧
        (∀ e, (s.configure L c.setting c.force).1 = .error e →
          L.sinks (start.after L calls).logger = []) ∧
        ((∃ e, (s.configure L c.setting c.force).1 = .error e) ↔
          L.knows (Filter.read none c.setting).modules = false) := by
  have hcounted : start.Counted := by rw [Counted, hstart, hhandlers]; rfl
  have hone := hcounted.after hL calls
  rw [Counted, if_pos h] at hone
  obtain ⟨s, c, hlast⟩ := exists_lastEffect hstart h
  refine ⟨hone, s, c, hlast, ?_⟩
  -- all calls behind the last one that took effect were skipped, so one is left to look at
  rw [hlast.after_eq]
  change ((s.call L c).1 = .ok () → L.sinks (s.call L c).2.logger = [c.filter]) ∧
    (∀ e, (s.call L c).1 = .error e → L.sinks (s.call L c).2.logger = []) ∧
    ((∃ e, (s.call L c).1 = .error e) ↔ L.knows c.filter = false)
  cases hknown : L.knows c.filter with
  | false =>
    obtain ⟨e, logger, hcall, hsinks⟩ := call_refused hL hlast.heeds hknown
    rw [hcall]
    exact ⟨nofun, fun _ _ => hsinks, fun _ => rfl, fun _ => ⟨e, rfl⟩⟩
  | true =>
    obtain ⟨logger, hcall, hsinks⟩ := call_accepted hL hlast.heeds hknown
    rw [hcall]
    exact ⟨fun _ => hsinks, nofun, nofun, nofun⟩

end Setup

/-! ## the standard logger -/

/-- A function succeeds along a list if it succeeds everywhere. -/
theorem isOk_mapM {α β ε : Type} (f : α → Except ε β) (xs : List α) :
    (xs.mapM f).isOk = xs.all fun x => (f x).isOk := by
  induction xs with
  | nil => rfl
  | cons x xs ih =>
    rw [List.mapM_cons, List.all_cons, ← ih]
    cases f x with
    | error e => rfl
    | ok y => cases xs.mapM f <;> rfl

namespace Sink

/-- There is a least level unless the threshold names a level that does not exist. -/
theorem isOk_leastLevel (source : String) (threshold : Threshold) :
    (leastLevel source threshold).isOk = threshold.name?.all standard.hasLevel := by
  cases threshold with
  | off => rfl
  | level name =>
    change (leastLevel source (.level name)).isOk = (levelNumber? name).isSome
    rw [leastLevel]
    cases levelNumber? name <;> rfl

/-- All thresholds can be read exactly if the logger knows them. -/
theorem isOk_leastLevels (f : Table Threshold) :
    (leastLevels f.entries).isOk = standard.knows f := by
  rw [leastLevels, isOk_mapM, Logger.knows]
  congr 1
  funext entry
  rw [← isOk_leastLevel entry.1]
  cases h : leastLevel entry.1 entry.2 <;> simp only [h] <;> rfl

end Sink

theorem standard_lawful : standard.Lawful where
  remove_drops _ := rfl
  add_refuses f s h := by
    rw [← Sink.isOk_leastLevels] at h
    cases hf : Sink.leastLevels f.entries with
    | ok thresholds => rw [hf] at h; contradiction
    | error e => exact ⟨e, s, by simp only [standard, hf], rfl⟩
  add_installs f s h := by
    rw [← Sink.isOk_leastLevels] at h
    cases hf : Sink.leastLevels f.entries with
    | error e => rw [hf] at h; contradiction
    | ok thresholds =>
      exact ⟨s ++ [⟨f, thresholds⟩], by simp only [standard, hf], by simp [standard]⟩

namespace Logging

/-- A call that is refused, one that takes effect, one that is skipped, one that is forced, and
again one that is skipped. -/
def reconfigured : List Call :=
  [⟨some "loud", false⟩, ⟨none, false⟩, ⟨some "debug", false⟩, ⟨some "error,app=false", true⟩,
    ⟨some "debug", false⟩]

/-- The filter that is in force is the one of the forced call, the last one that took effect. -/
theorem configured_sinks_reconfigured :
    standard.Lawful ∧ (start.after standard reconfigured).configured = true ∧
      (start.after standard reconfigured).handlers = 1 ∧
      standard.sinks (start.after standard reconfigured).logger =
        [⟨[("app", .off), ("", .level "ERROR")]⟩] ∧
      ∃ s c, Setup.LastEffect standard start reconfigured s c ∧
        c.filter = ⟨[("app", .off), ("", .level "ERROR")]⟩ := by
  have hconfigured : (start.after standard reconfigured).configured = true := by decide +kernel
  have hsinks : standard.sinks (start.after standard reconfigured).logger =
      [⟨[("app", .off), ("", .level "ERROR")]⟩] := by decide +kernel
  obtain ⟨hhandlers, s, c, hlast, hok, hrefused, -⟩ :=
    Setup.configured_sinks standard_lawful rfl rfl reconfigured hconfigured
  refine ⟨standard_lawful, hconfigured, hhandlers, hsinks, s, c, hlast, ?_⟩
  cases hanswer : (s.configure standard c.setting c.force).1 with
  | error e => exact absurd (hsinks.symm.trans (hrefused e hanswer)) (List.cons_ne_nil _ _)
  | ok => exact (List.head_eq_of_cons_eq (hsinks.symm.trans (hok hanswer))).symm

/-- A forced call with a level that does not exist, between two calls whose filters are in order. -/
def silenced : List Call :=
  [⟨some "info", false⟩, ⟨some "loud", true⟩, ⟨some "info", false⟩]

/-- The logger is lawful, and the forced call takes the sink away. Logging still counts as
configured, so the last call is skipped and installs no other. -/
theorem configured_without_sink :
    standard.Lawful ∧ (start.after standard silenced).configured = true ∧
      standard.sinks (start.after standard silenced).logger = [] :=
  ⟨standard_lawful, by decide +kernel, by decide +kernel⟩

end Logging

end PolyLambda.Log
