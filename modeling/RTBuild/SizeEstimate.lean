import RTBuild.Scene

namespace RTBuild.SizeEstimate

structure Stats where
  numTriangles : Nat := 0
  numQuads : Nat := 0
  numProcedurals : Nat := 0
  numInstances : Nat := 0
  deriving DecidableEq, Repr

/-- The conversion size_t(n*factor) for the rational factor num/den, rounding down. In double
precision the two agree below about 2^50 only. -/
def scale (num den n : Nat) : Nat := num * n / den

def roundUp128 (bytes : Nat) : Nat := (bytes + 127) / 128 * 128

def Stats.size (s : Stats) : Nat := s.numTriangles + s.numQuads + s.numProcedurals + s.numInstances

def Stats.estimateQuadification (s : Stats) : Stats :=
  { s with
    numQuads := s.numQuads + ((s.numTriangles + 1) / 2 + s.numTriangles / 8)
    numTriangles := 0 }

def Stats.estimatePresplits (s : Stats) : Stats :=
  { s with
    numTriangles := max s.numTriangles (scale 12 10 s.numTriangles)
    numQuads := max s.numQuads (scale 12 10 s.numQuads)
    numInstances := max s.numInstances (scale 12 10 s.numInstances) }

def paddedBytes (bytes : Nat) : Nat := roundUp128 (2 * 4096 + scale 11 10 bytes)

def Stats.expectedBvhBytes (s : Stats) : Nat :=
  let blocks := (s.size + 5) / 6
  let expectedBytes := 128 + 64 * (1 + scale 15 10 blocks) + s.numTriangles * 64 + s.numQuads * 64 +
    s.numProcedurals * 8 + s.numInstances * 128
  paddedBytes expectedBytes

def Stats.worstCaseBvhBytes (s : Stats) : Nat :=
  let numPrimitives := s.size
  let blocks := (numPrimitives + 5) / 6
  let worstCaseBytes := 128 + 64 * (1 + blocks + numPrimitives) + s.numTriangles * 64 + s.numQuads * 64 +
    s.numProcedurals * 64 + s.numInstances * 128
  paddedBytes worstCaseBytes

def sizeofPrimRef : Nat := 32

def Stats.scratchSpaceBytes (s : Stats) : Nat := s.size * sizeofPrimRef + 64

def Stats.add (s : Stats) (ty : PrimType) (n : Nat) : Stats :=
  match ty with
  | .triangle => { s with numTriangles := s.numTriangles + n }
  | .quad => { s with numQuads := s.numQuads + n }
  | .procedural => { s with numProcedurals := s.numProcedurals + n }
  | .inst => { s with numInstances := s.numInstances + n }

def estimateStats : Stats → Scene → Stats
  | s, [] => s
  | s, none :: scene => estimateStats s scene
  | s, some g :: scene =>
      if g.numPrimitives = 0 then estimateStats s scene
      else estimateStats (s.add g.type g.numPrimitives) scene

structure BuildProperties where
  expectedBytes : Nat
  worstCaseBytes : Nat
  scratchBytes : Nat
  deriving DecidableEq, Repr

def estimateSize (scene : Scene) (quality : BuildQuality) (flags : BuildFlags) : BuildProperties :=
  let stats := estimateStats {} scene
  let stats := if useSpatialSplits quality flags then stats.estimatePresplits else stats
  { expectedBytes := stats.estimateQuadification.expectedBvhBytes
    worstCaseBytes := stats.worstCaseBvhBytes
    scratchBytes := stats.scratchSpaceBytes }

/-- The loop at the start of BuilderT::build. The second argument is its
running total numPrimitives, which is what a triangle geometry adds. -/
def buildStats : Stats → Nat → Scene → Stats
  | s, _, [] => s
  | s, total, none :: scene => buildStats s total scene
  | s, total, some g :: scene =>
      let total := total + g.numPrimitives
      if g.numPrimitives = 0 then buildStats s total scene
      else match g.type with
        | .triangle => buildStats { s with numTriangles := s.numTriangles + total } total scene
        | ty => buildStats (s.add ty g.numPrimitives) total scene

def buildWorstCaseBytes (scene : Scene) : Nat :=
  (buildStats {} 0 scene).estimatePresplits.worstCaseBvhBytes

/-- The value BuilderT::build leaves in accelBufferBytesOut before it tries to build. -/
def retryBytes (scene : Scene) (bytes : Nat) : Nat :=
  min (max (bytes + 64) (scale 12 10 bytes)) (buildWorstCaseBytes scene)

/-- What the size query and the build promise to each other: the caller starts
at the expected size and grows to whatever a failed build reports. -/
structure RetryContract (scene : Scene) (quality : BuildQuality) (flags : BuildFlags) : Prop where
  expected_le : (estimateSize scene quality flags).expectedBytes ≤
    (estimateSize scene quality flags).worstCaseBytes
  same_worst : buildWorstCaseBytes scene = (estimateSize scene quality flags).worstCaseBytes
  grows : ∀ bytes < (estimateSize scene quality flags).worstCaseBytes, bytes < retryBytes scene bytes ∧
    retryBytes scene bytes ≤ (estimateSize scene quality flags).worstCaseBytes
  ends : ∃ k, (retryBytes scene)^[k] (estimateSize scene quality flags).expectedBytes =
      (estimateSize scene quality flags).worstCaseBytes ∧
    ∀ i ≤ k, (retryBytes scene)^[i] (estimateSize scene quality flags).expectedBytes ≤
      (estimateSize scene quality flags).worstCaseBytes

def TrianglesLead (scene : Scene) : Prop :=
  ∀ pre g post, scene = pre ++ some g :: post → g.type = .triangle → g.numPrimitives ≠ 0 →
    numPrimitives pre = 0

def PresplitsAgree (scene : Scene) (quality : BuildQuality) (flags : BuildFlags) : Prop :=
  useSpatialSplits quality flags = true ∨
    (numOfType .triangle scene < 5 ∧ numOfType .quad scene < 5 ∧ numOfType .inst scene < 5)

theorem estimateStats_eq (s : Stats) (scene : Scene) :
    estimateStats s scene =
      { numTriangles := s.numTriangles + numOfType .triangle scene
        numQuads := s.numQuads + numOfType .quad scene
        numProcedurals := s.numProcedurals + numOfType .procedural scene
        numInstances := s.numInstances + numOfType .inst scene } := by
  induction scene generalizing s with
  | nil => rfl
  | cons g scene ih =>
      rcases g with _ | ⟨ty, n⟩
      · simp [estimateStats, numOfType, ih]
      · by_cases hn : n = 0
        · simp [estimateStats, numOfType, ih, hn]
        · cases ty <;> simp [estimateStats, numOfType, ih, hn, Stats.add, Nat.add_assoc]

def runningTriangles : Nat → Scene → Nat
  | _, [] => 0
  | total, none :: scene => runningTriangles total scene
  | total, some g :: scene =>
      (if g.type = .triangle ∧ g.numPrimitives ≠ 0 then total + g.numPrimitives else 0) +
        runningTriangles (total + g.numPrimitives) scene

theorem buildStats_eq (s : Stats) (total : Nat) (scene : Scene) :
    buildStats s total scene =
      { numTriangles := s.numTriangles + runningTriangles total scene
        numQuads := s.numQuads + numOfType .quad scene
        numProcedurals := s.numProcedurals + numOfType .procedural scene
        numInstances := s.numInstances + numOfType .inst scene } := by
  induction scene generalizing s total with
  | nil => rfl
  | cons g scene ih =>
      rcases g with _ | ⟨ty, n⟩
      · simp [buildStats, numOfType, runningTriangles, ih]
      · by_cases hn : n = 0
        · simp [buildStats, numOfType, runningTriangles, ih, hn]
        · cases ty <;>
            simp [buildStats, numOfType, runningTriangles, ih, hn, Stats.add, Nat.add_assoc]

theorem numOfType_le_runningTriangles (total : Nat) (scene : Scene) :
    numOfType .triangle scene ≤ runningTriangles total scene := by
  induction scene generalizing total with
  | nil => exact Nat.le_refl 0
  | cons g scene ih =>
      rcases g with _ | ⟨ty, n⟩
      · exact ih total
      · have h := ih (total + n)
        simp only [numOfType, runningTriangles]
        split <;> split <;> grind

/-- The slip in the running total shows exactly when a triangle geometry has primitives before it. -/
theorem runningTriangles_eq_iff (total : Nat) (scene : Scene) :
    runningTriangles total scene = numOfType .triangle scene ↔
      ∀ pre g post, scene = pre ++ some g :: post → g.type = .triangle → g.numPrimitives ≠ 0 →
        total + numPrimitives pre = 0 := by
  induction scene generalizing total with
  | nil => simp [runningTriangles, numOfType]
  | cons g scene ih =>
      have hcons (P : Scene → Geometry → Prop) :
          (∀ pre g' post, g :: scene = pre ++ some g' :: post → P pre g') ↔
            (∀ g', g = some g' → P [] g') ∧
              ∀ pre g' post, scene = pre ++ some g' :: post → P (g :: pre) g' := by
        constructor
        · intro h
          refine ⟨fun g' hg => h [] g' scene (by simp [hg]), fun pre g' post hs => ?_⟩
          exact h (g :: pre) g' post (by simp [hs])
        · rintro ⟨h0, h1⟩ pre g' post hs
          cases pre with
          | nil => exact h0 g' (by simpa using (List.cons.inj hs).1)
          | cons p pre =>
              obtain ⟨rfl, hs'⟩ := List.cons.inj hs
              exact h1 pre g' post hs'
      rw [hcons (fun pre g' => g'.type = .triangle → g'.numPrimitives ≠ 0 →
        total + numPrimitives pre = 0)]
      rcases g with _ | ⟨ty, n⟩
      · simpa [runningTriangles, numOfType, getSize] using ih total
      · have hle := numOfType_le_runningTriangles (total + n) scene
        have hih := ih (total + n)
        simp only [Option.some.injEq, forall_eq', numPrimitives_nil, Nat.add_zero,
          numPrimitives_cons, getSize, ← Nat.add_assoc]
        rw [← hih]
        simp only [runningTriangles, numOfType]
        by_cases ht : ty = .triangle <;> by_cases hn : n = 0 <;> simp [ht, hn]; omega

theorem trianglesLead_iff (scene : Scene) :
    TrianglesLead scene ↔ runningTriangles 0 scene = numOfType .triangle scene := by
  rw [runningTriangles_eq_iff]
  simp [TrianglesLead]

theorem paddedBytes_mono {m n : Nat} (h : m ≤ n) : paddedBytes m ≤ paddedBytes n := by
  simp only [paddedBytes, roundUp128, scale]
  omega

/-- A primitive adds at least 128 bytes, which survive the rounding. -/
theorem paddedBytes_strict {m n : Nat} (h : m + 128 ≤ n) : paddedBytes m < paddedBytes n := by
  simp only [paddedBytes, roundUp128, scale]
  omega

theorem worstCaseBvhBytes_eq_iff {s t : Stats} (ht : s.numTriangles ≤ t.numTriangles)
    (hq : s.numQuads ≤ t.numQuads) (hp : s.numProcedurals = t.numProcedurals)
    (hi : s.numInstances ≤ t.numInstances) :
    t.worstCaseBvhBytes = s.worstCaseBvhBytes ↔
      t.numTriangles = s.numTriangles ∧ t.numQuads = s.numQuads ∧ t.numInstances = s.numInstances := by
  constructor
  · intro h
    by_contra hne
    refine absurd h.symm (Nat.ne_of_lt (paddedBytes_strict ?_))
    simp only [Stats.size]
    omega
  · rintro ⟨ht, hq, hi⟩
    simp only [Stats.worstCaseBvhBytes, Stats.size, ht, hq, hi, hp]

theorem expected_le_worst (s : Stats) :
    s.estimateQuadification.expectedBvhBytes ≤ s.worstCaseBvhBytes := by
  have hquads : (s.numTriangles + 1) / 2 + s.numTriangles / 8 ≤ s.numTriangles := by omega
  apply paddedBytes_mono
  simp only [Stats.estimateQuadification, Stats.size, scale]
  omega

theorem presplit_eq_self_iff (n : Nat) : max n (scale 12 10 n) = n ↔ n < 5 := by
  simp only [scale]
  omega

theorem le_presplit (n : Nat) : n ≤ max n (scale 12 10 n) := Nat.le_max_left _ _

theorem presplit_mono {m n : Nat} (h : m ≤ n) : max m (scale 12 10 m) ≤ max n (scale 12 10 n) := by
  simp only [scale]
  omega

theorem presplit_inj {m n : Nat} : max m (scale 12 10 m) = max n (scale 12 10 n) ↔ m = n := by
  simp only [scale]
  omega

/-- The build pre-splits its statistics always, the size query only when it uses spatial splits. -/
theorem presplit_worst_eq_iff (e b : Stats) (spatial : Bool) (ht : e.numTriangles ≤ b.numTriangles)
    (hq : b.numQuads = e.numQuads) (hp : e.numProcedurals = b.numProcedurals)
    (hi : b.numInstances = e.numInstances) :
    b.estimatePresplits.worstCaseBvhBytes =
        (if spatial then e.estimatePresplits else e).worstCaseBvhBytes ↔
      b.numTriangles = e.numTriangles ∧
        (spatial = true ∨ (e.numTriangles < 5 ∧ e.numQuads < 5 ∧ e.numInstances < 5)) := by
  cases spatial with
  | true =>
      rw [if_pos rfl, worstCaseBvhBytes_eq_iff]
      · simp [Stats.estimatePresplits, presplit_inj, hq, hi]
      · exact presplit_mono ht
      · exact presplit_mono hq.ge
      · exact hp
      · exact presplit_mono hi.ge
  | false =>
      rw [if_neg (by simp), worstCaseBvhBytes_eq_iff]
      · have hle := le_presplit b.numTriangles
        simp only [Stats.estimatePresplits, hq, hi, Bool.false_eq_true, false_or, presplit_eq_self_iff]
        constructor
        · rintro ⟨hbt, hrest⟩
          have hr : b.numTriangles = e.numTriangles := by omega
          rw [hr] at hbt
          exact ⟨hr, (presplit_eq_self_iff _).mp hbt, hrest⟩
        · rintro ⟨hr, hbt, hrest⟩
          rw [hr]
          exact ⟨(presplit_eq_self_iff _).mpr hbt, hrest⟩
      · exact ht.trans (le_presplit _)
      · exact hq.ge.trans (le_presplit _)
      · exact hp
      · exact hi.ge.trans (le_presplit _)

theorem buildWorstCaseBytes_eq_iff (scene : Scene) (quality : BuildQuality) (flags : BuildFlags) :
    buildWorstCaseBytes scene = (estimateSize scene quality flags).worstCaseBytes ↔
      TrianglesLead scene ∧ PresplitsAgree scene quality flags := by
  have h := presplit_worst_eq_iff (estimateStats {} scene) (buildStats {} 0 scene)
    (useSpatialSplits quality flags)
    (by simpa [estimateStats_eq, buildStats_eq] using numOfType_le_runningTriangles 0 scene)
    (by simp [estimateStats_eq, buildStats_eq]) (by simp [estimateStats_eq, buildStats_eq])
    (by simp [estimateStats_eq, buildStats_eq])
  rw [trianglesLead_iff, PresplitsAgree]
  simpa only [buildWorstCaseBytes, estimateSize, estimateStats_eq, buildStats_eq, Nat.zero_add] using h

theorem lt_retryBytes {scene : Scene} {bytes : Nat} (h : bytes < buildWorstCaseBytes scene) :
    bytes < retryBytes scene bytes := by
  simp only [retryBytes]
  omega

theorem retryBytes_le (scene : Scene) (bytes : Nat) :
    retryBytes scene bytes ≤ buildWorstCaseBytes scene :=
  Nat.min_le_right _ _

theorem iterate_reaches {f : Nat → Nat} {bound : Nat} (hf : ∀ n < bound, n < f n ∧ f n ≤ bound) (n : Nat)
    (hn : n ≤ bound) : ∃ k, f^[k] n = bound ∧ ∀ i ≤ k, f^[i] n ≤ bound := by
  induction hd : bound - n using Nat.strong_induction_on generalizing n with
  | _ d ih =>
      rcases hn.lt_or_eq with hlt | rfl
      · obtain ⟨hgrow, hle⟩ := hf n hlt
        obtain ⟨k, hk, hall⟩ := ih (bound - f n) (by omega) (f n) hle rfl
        refine ⟨k + 1, by rwa [Function.iterate_succ_apply], fun i hi => ?_⟩
        cases i with
        | zero => exact hn
        | succ i => rw [Function.iterate_succ_apply]; exact hall i (by omega)
      · exact ⟨0, rfl, fun i hi => by simp [Nat.le_zero.mp hi]⟩

/-- The size query and the retry answer keep their contract exactly for the
scenes whose first non-empty geometry is the only one with triangles, if any
has, and whose counts the pre-split factor leaves alone. -/
theorem retryContract_iff (scene : Scene) (quality : BuildQuality) (flags : BuildFlags) :
    RetryContract scene quality flags ↔ TrianglesLead scene ∧ PresplitsAgree scene quality flags := by
  rw [← buildWorstCaseBytes_eq_iff]
  constructor
  · exact fun h => h.same_worst
  · intro h
    have hexp : (estimateSize scene quality flags).expectedBytes ≤
        (estimateSize scene quality flags).worstCaseBytes := expected_le_worst _
    have hgrow : ∀ bytes < (estimateSize scene quality flags).worstCaseBytes,
        bytes < retryBytes scene bytes ∧
          retryBytes scene bytes ≤ (estimateSize scene quality flags).worstCaseBytes := by
      intro bytes hb
      rw [← h] at hb ⊢
      exact ⟨lt_retryBytes hb, retryBytes_le scene bytes⟩
    exact ⟨hexp, h, hgrow, iterate_reaches hgrow _ hexp⟩

/-- A quad before a triangle is counted as a second triangle, so the retry
answer can ask for more than the maximum that the size query reported. -/
theorem not_retryContract_quad_triangle :
    ¬ RetryContract [some ⟨.quad, 1⟩, some ⟨.triangle, 1⟩] .high ⟨false, false⟩ := by
  intro h
  exact absurd h.same_worst (by decide)

end RTBuild.SizeEstimate
