import Schedmon.Calibrate.ThresholdsConf
import Schedmon.Classifier
import Schedmon.Library.StampedCache

/-!
# Reloading the thresholds

Every call of `classify` looks whether `thresholds.conf` has another modification
time than the one it remembers, and loads it again if so.  The file is replaced and
removed between any two steps of a call.  The thresholds are of any type with a
function for their exact values.
-/

namespace Schedmon

open Library Library.PythonText Transition StampedCache

variable {F : Type}

/-- The entries of `_thresholds` that `classify` reads. -/
def ThresholdTable.exact (value : F → ℚ) (t : ThresholdTable F) : Thresholds where
  ipcCpuThreshold := value (t .ipcCpu)
  ipcMemThreshold := value (t .ipcMem)
  llcMemThreshold := value (t .llcMem)
  ctxIoThreshold := value (t .ctxIo)
  ipcIdleThreshold := value (t .ipcIdle)
  ioWaitBoundThreshold := value (t .ioWaitBound)
  rqWaitStarvedThreshold := value (t .rqWaitStarved)

/-- The configuration file with its modification time, `_thresholds`,
`_thresh_mtime`, and where a call of `classify` is. -/
abbrev ReloadState (F : Type) := StampedCache.State (List Char) (ThresholdTable F) ℚ

/-- A step of a call, or a change of the file: `stat` is `os.path.getmtime` with the
comparison, `look` is `os.path.exists` in `load_thresholds`, and `load` is the rest of
it, which has the defaults where the file cannot be opened. -/
abbrev ReloadAction := StampedCache.Action (List Char) ℚ

section

variable (float : List Char → Option F) (defaults : ThresholdTable F)

/-- One step. -/
def reloadStep : ReloadAction → ReloadState F → Option (ReloadState F) :=
  StampedCache.step (loadThresholds float defaults)

/-- After the import of the module, which loads the file without its time. -/
def reloadStart (file : Option (List Char × ℚ)) : ReloadState F where
  source := file
  value := loadThresholds float defaults (file.map Prod.fst)
  stamp := 0
  phase := .idle
  before := loadThresholds float defaults (file.map Prod.fst)
  during := []

end

/-- What a call returns after the thresholds were looked at. -/
def classifyBy (value : F → ℚ) (t : ThresholdTable F) (sample : Sample)
    (hwPmuAvailable : Bool) : Label × Style :=
  classify (t.exact value) sample.ipc sample.llc sample.ctx sample.ioWait sample.rqWait
    hwPmuAvailable

variable {float : List Char → Option F} {defaults : ThresholdTable F}

/-- The thresholds that the import loads are those of the file. -/
theorem reloadStart_valid (file : Option (List Char × ℚ)) :
    Start (loadThresholds float defaults) (reloadStart float defaults file) where
  idle := rfl
  agrees := by
    intro content source
    have equal : file = some (content, 0) := source
    rw [equal]
    rfl

/-- However the file changes, where every change gives it another modification time:
a call that finds the file classifies by the thresholds of a content that the file had
during the call, or by the defaults where it had gone, a call that does not find it
classifies by the thresholds as they were, and a call during which the file is what
`write_thresholds` wrote classifies by what was written. -/
theorem classify_reloads
    (value : F → ℚ)
    {file : Option (List Char × ℚ)}
    {actions : List ReloadAction}
    (fresh : Fresh (0 :: (file.map Prod.snd).toList) (stampsOf actions))
    {s : ReloadState F}
    (run : runActions (reloadStep float defaults) actions
      (reloadStart float defaults file) = some s)
    {found : Bool}
    (done : s.phase = .done found) :
    (s.during.head? ≠ some none →
      ∃ content ∈ s.during, ∀ sample hwPmuAvailable,
        classifyBy value s.value sample hwPmuAvailable =
          classifyBy value (loadThresholds float defaults content) sample hwPmuAvailable) ∧
    (s.during.head? = some none → s.value = s.before) ∧
    ∀ repr, ReprReadsBack float repr → ∀ thresholds time cores llcBytes ramGb cpuinfo
      durations,
      s.during = [some (writeThresholds repr thresholds time cores llcBytes ramGb cpuinfo
        durations)] →
      s.value = thresholds := by
  obtain ⟨reloaded, kept, -⟩ := done_of_run (reloadStart_valid file) fresh run done
  refine ⟨?_, kept, ?_⟩
  · intro head
    obtain ⟨content, member, equal⟩ := reloaded head
    refine ⟨content, member, fun sample hwPmuAvailable => ?_⟩
    rw [equal]
  · intro repr text thresholds time cores llcBytes ramGb cpuinfo durations during
    obtain ⟨content, member, equal⟩ := reloaded (by rw [during]; nofun)
    rw [during, List.mem_singleton] at member
    rw [equal, member, loadThresholds_writeThresholds text]

/-- A file that calibration wrote. -/
def writtenConf : List Char :=
  writeThresholds wholeRepr (fun _ => 12) ⟨2025, 6, 1, 9, 30, 5⟩ 8 8388608 16
    (some "model name\t: Some CPU\n".toList) 20

/-- The file is written after the import, and the next call loads it. -/
theorem classify_reloads_written :
    ∃ s, runActions (reloadStep wholeFloat fun _ => 5)
        [.write writtenConf 7, .stat, .look, .load]
        (reloadStart wholeFloat (fun _ => 5) none) = some s ∧
      s.value = fun _ => 12 := by
  have fresh : Fresh (0 :: ((none : Option (List Char × ℚ)).map Prod.snd).toList)
      (stampsOf [.write writtenConf 7, .stat, .look, .load]) :=
    ⟨List.nodup_singleton 7, List.forall_mem_singleton.mpr (by simp)⟩
  exact ⟨_, rfl, (classify_reloads Nat.cast fresh rfl rfl).2.2 wholeRepr
    wholeRepr_readsBack _ _ _ _ _ _ _ rfl⟩

end Schedmon
