import RTBuild.Image

namespace RTBuild

open SizeEstimate

def maxIterations : Nat := 16

def moreIterations : String := "build requires more than 16 iterations"

def wrongEstimate : String := "failed build returned wrong new estimate"

def buildError : String := "build error"

section estimate

variable (scene : Scene) (quality : BuildQuality) (flags : BuildFlags)

variable {scene}

theorem le_retryBytes {bytes : Nat} (h : bytes ≤ buildWorstCaseBytes scene) :
    bytes ≤ retryBytes scene bytes := by
  rw [retryBytes]
  omega

end estimate

section loop

inductive TestResult
  | passed (bytes : Nat)
  | error (what : String)
  | aborted

/-- An assertion about the root or a child offset fails, which ends a program that has assertions. -/
def Aborts (t : List BuildEvent) : Prop := .emit (.assertRoot false) ∈ t ∨ .emit (.assert false) ∈ t

/-- The loop of the mode BUILD_EXPECTED_SIZE, from an iteration and a number of bytes on, with the sizes
of all buffers that it tries. -/
inductive ExpectedSizeLoop (b : BuilderT) (fuel : Nat) (prims : Nat → PrimRef) (pinfo : PrimInfoRange)
    (scene : Scene) (maxRequired : Nat) : Nat → Nat → List Nat → TestResult → Prop
  | more (bytes) :
      ExpectedSizeLoop b fuel prims pinfo scene maxRequired maxIterations bytes []
        (.error moreIterations)
  | aborted {i bytes t o cur} (hi : i < maxIterations)
      (hrun : BufferRun bytes (build b fuel prims pinfo) 0 t o cur) (haborts : Aborts t) :
      ExpectedSizeLoop b fuel prims pinfo scene maxRequired i bytes [bytes] .aborted
  | built {i bytes t v cur} (hi : i < maxIterations)
      (hrun : BufferRun bytes (build b fuel prims pinfo) 0 t (.ret v) cur) (hpasses : ¬ Aborts t)
      (hv : v.valid = true) :
      ExpectedSizeLoop b fuel prims pinfo scene maxRequired i bytes [bytes] (.passed bytes)
  | threw {i bytes t x cur} (hi : i < maxIterations)
      (hrun : BufferRun bytes (build b fuel prims pinfo) 0 t (.throw x) cur) (hpasses : ¬ Aborts t) :
      ExpectedSizeLoop b fuel prims pinfo scene maxRequired i bytes [bytes] (.error buildError)
  | wrong {i bytes t v cur} (hi : i < maxIterations)
      (hrun : BufferRun bytes (build b fuel prims pinfo) 0 t (.ret v) cur) (hpasses : ¬ Aborts t)
      (hv : v.valid = false)
      (hwrong : retryBytes scene bytes < bytes ∨ maxRequired < retryBytes scene bytes) :
      ExpectedSizeLoop b fuel prims pinfo scene maxRequired i bytes [bytes] (.error wrongEstimate)
  | retry {i bytes t v cur tried o} (hi : i < maxIterations)
      (hrun : BufferRun bytes (build b fuel prims pinfo) 0 t (.ret v) cur) (hpasses : ¬ Aborts t)
      (hv : v.valid = false)
      (hright : ¬ (retryBytes scene bytes < bytes ∨ maxRequired < retryBytes scene bytes))
      (h : ExpectedSizeLoop b fuel prims pinfo scene maxRequired (i + 1) (retryBytes scene bytes)
        tried o) :
      ExpectedSizeLoop b fuel prims pinfo scene maxRequired i bytes (bytes :: tried) o

variable {b : BuilderT} {fuel : Nat} {prims : Nat → PrimRef} {pinfo : PrimInfoRange} {scene : Scene}
  {maxRequired : Nat} {tried : List Nat} {o : TestResult}

theorem ExpectedSizeLoop.last {i bytes : Nat}
    (h : ExpectedSizeLoop b fuel prims pinfo scene maxRequired i bytes tried o)
    (hi : i = maxIterations) :
    o = .error moreIterations := by
  cases h with
  | more bytes => rfl
  | aborted hlt => exact absurd hi hlt.ne
  | built hlt => exact absurd hi hlt.ne
  | threw hlt => exact absurd hi hlt.ne
  | wrong hlt => exact absurd hi hlt.ne
  | retry hlt => exact absurd hi hlt.ne

theorem not_aborts {bytes : Nat} {t : List BuildEvent} {o : BuildOutcome} {cur : Nat}
    (hlt : headerBytes + nodeBytes < bytes) (hend : bytes ≤ 2 ^ 37)
    (hrun : BufferRun bytes (build b fuel prims pinfo) 0 t o cur) : ¬ Aborts t := by
  have hpasses := passes_of_root hlt hrun
  rintro (hroot | hoffset)
  · exact hpasses.root hroot
  · exact hpasses.offsets hend hoffset

/-- How the loop ends that starts at a number of bytes from which ten retries get to the maximum. -/
theorem ExpectedSizeLoop.outcome {i bytes start : Nat}
    (h : ExpectedSizeLoop b fuel prims pinfo scene maxRequired i bytes tried o) (hfuel : 30 ≤ fuel)
    (hbounds : (rootRecord pinfo).bounds = unionBounds ((rootRecord pinfo).list prims))
    (hmax : maxRequired ≤ buildWorstCaseBytes scene) (hend : maxRequired ≤ 2 ^ 37)
    (hreach : ∀ k, 10 ≤ k → maxRequired ≤ (retryBytes scene)^[k] start) (hi : i < maxIterations)
    (hbytes : bytes = (retryBytes scene)^[i] start) (hle : bytes ≤ maxRequired)
    (hroot : headerBytes + nodeBytes < bytes) :
    (∃ bytes ∈ tried, o = .passed bytes ∧ builtBytes b fuel prims pinfo < bytes) ∨
      (o = .error wrongEstimate ∧ ∃ bytes ∈ tried, maxRequired < retryBytes scene bytes) ∨
      (o = .error moreIterations ∧ maxRequired ∈ tried ∧ maxRequired = buildWorstCaseBytes scene ∧
        maxRequired ≤ builtBytes b fuel prims pinfo) ∨
      (o = .error buildError ∧ 98304 < (rootRecord pinfo).size) := by
  induction h with
  | more bytes => exact absurd rfl hi.ne
  | aborted hlt hrun haborts => exact absurd haborts (not_aborts hroot (hle.trans hend) hrun)
  | built hlt hrun hpasses hv =>
      exact Or.inl ⟨_, List.mem_singleton_self _, rfl, (build_bytes hrun).1.1 hv⟩
  | threw hlt hrun hpasses =>
      exact Or.inr (Or.inr (Or.inr ⟨rfl, (build_throw hfuel hbounds hrun.1 _ rfl).2⟩))
  | wrong hlt hrun hpasses hv hwrong =>
      refine Or.inr (Or.inl ⟨rfl, _, List.mem_singleton_self _, ?_⟩)
      rcases hwrong with hless | hmore
      · exact absurd (le_retryBytes (hle.trans hmax)) (Nat.not_le.2 hless)
      · exact hmore
  | @retry i bytes t v cur tried o hlt hrun hpasses hv hright h ih =>
      have hnext : retryBytes scene bytes ≤ maxRequired := by omega
      by_cases hlast : i + 1 < maxIterations
      · have hstep : retryBytes scene bytes = (retryBytes scene)^[i + 1] start := by
          rw [hbytes, Function.iterate_succ_apply']
        rcases ih hlast hstep hnext (by omega) with ⟨bytes', hmem, hpassed⟩ |
          ⟨hwrong, bytes', hmem, hmore⟩ | ⟨hmore, hmem, hfull⟩ | herror
        · exact Or.inl ⟨bytes', List.mem_cons_of_mem _ hmem, hpassed⟩
        · exact Or.inr (Or.inl ⟨hwrong, bytes', List.mem_cons_of_mem _ hmem, hmore⟩)
        · exact Or.inr (Or.inr (Or.inl ⟨hmore, List.mem_cons_of_mem _ hmem, hfull⟩))
        · exact Or.inr (Or.inr (Or.inr herror))
      · have hfifteen : 10 ≤ i := by
          have hmaxIterations : maxIterations = 16 := rfl
          omega
        have heq : bytes = maxRequired := hle.antisymm (hbytes ▸ hreach i hfifteen)
        have hfull : builtBytes b fuel prims pinfo < bytes → False := fun hbuilt =>
          Bool.noConfusion (hv.symm.trans ((build_bytes hrun).1.2 hbuilt))
        refine Or.inr (Or.inr (Or.inl ⟨h.last (by omega), heq ▸ List.mem_cons_self,
          hmax.antisymm ?_, ?_⟩))
        · apply Nat.le_of_not_lt
          intro hmore
          have hgrows := lt_retryBytes (heq ▸ hmore)
          omega
        · exact heq ▸ Nat.le_of_not_lt hfull

end loop

section client

end client

end RTBuild
