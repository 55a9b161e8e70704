import Mathlib

/-! Tunable parameters of the transfer pipeline (`internal/worker/pipeline/config.go`):
the defaults for zero fields and the check that `Pipeline.Run` makes before it starts. -/

namespace CephVolsync.Pipeline

structure Config where
  maxRawMemoryBytes : ℤ
  maxWindow : ℤ
  readWorkers : ℤ
  dataSendWorkers : ℤ
  dataBatchMaxCount : ℤ
  dataBatchMaxBytes : ℤ
  chunkSize : ℤ
  readChanBuf : ℤ
  deriving DecidableEq, Repr

def Config.zero : Config := ⟨0, 0, 0, 0, 0, 0, 0, 0⟩

def defaultChunkSize : ℤ := 16 * 1024 * 1024
def minChunkSize : ℤ := 64 * 1024
def maxChunkSize : ℤ := 16 * 1024 * 1024
def minMaxWindow : ℤ := 8
def maxMaxWindow : ℤ := 4096
def minReadWorkers : ℤ := 2
def minDataSendWorkers : ℤ := 1
def maxDataSendWorkers : ℤ := 16
def minBatchCount : ℤ := 4
def maxBatchCount : ℤ := 256

def orDefault (x d : ℤ) : ℤ := if x = 0 then d else x

/-- `SetDefaults`: the channel buffer follows the read workers after their own default. -/
def Config.setDefaults (c : Config) : Config :=
  let readWorkers := orDefault c.readWorkers 8
  { chunkSize := orDefault c.chunkSize defaultChunkSize
    readWorkers := readWorkers
    dataSendWorkers := orDefault c.dataSendWorkers 8
    maxWindow := orDefault c.maxWindow 1024
    maxRawMemoryBytes := orDefault c.maxRawMemoryBytes (1024 * 1024 * 1024)
    dataBatchMaxCount := orDefault c.dataBatchMaxCount 16
    dataBatchMaxBytes := orDefault c.dataBatchMaxBytes (16 * 1024 * 1024)
    readChanBuf := orDefault c.readChanBuf (readWorkers * 2) }

def outside (name : String) (x lo hi : ℤ) : String :=
  name ++ " " ++ toString x ++ " outside [" ++ toString lo ++ ", " ++ toString hi ++ "]"

/-- `validate`: the first failed check gives the error. -/
def Config.validate (c : Config) : Except String Unit :=
  if c.chunkSize < minChunkSize ∨ c.chunkSize > maxChunkSize then
    .error (outside "ChunkSize" c.chunkSize minChunkSize maxChunkSize)
  else if c.chunkSize > c.maxRawMemoryBytes then
    .error ("ChunkSize " ++ toString c.chunkSize ++ " > MaxRawMemoryBytes " ++
      toString c.maxRawMemoryBytes ++ " (would deadlock)")
  else if c.maxWindow < minMaxWindow ∨ c.maxWindow > maxMaxWindow then
    .error (outside "MaxWindow" c.maxWindow minMaxWindow maxMaxWindow)
  else if c.readWorkers < minReadWorkers then
    .error ("ReadWorkers " ++ toString c.readWorkers ++ " < " ++ toString minReadWorkers)
  else if c.dataSendWorkers < minDataSendWorkers ∨ c.dataSendWorkers > maxDataSendWorkers then
    .error (outside "DataSendWorkers" c.dataSendWorkers minDataSendWorkers maxDataSendWorkers)
  else if c.dataBatchMaxCount < minBatchCount ∨ c.dataBatchMaxCount > maxBatchCount then
    .error (outside "DataBatchMaxCount" c.dataBatchMaxCount minBatchCount maxBatchCount)
  else .ok ()

structure Config.Valid (c : Config) : Prop where
  chunk_min : 64 * 1024 ≤ c.chunkSize
  chunk_max : c.chunkSize ≤ 16 * 1024 * 1024
  chunk_mem : c.chunkSize ≤ c.maxRawMemoryBytes
  window_min : 8 ≤ c.maxWindow
  window_max : c.maxWindow ≤ 4096
  readers : 2 ≤ c.readWorkers
  senders_min : 1 ≤ c.dataSendWorkers
  senders_max : c.dataSendWorkers ≤ 16
  batch_min : 4 ≤ c.dataBatchMaxCount
  batch_max : c.dataBatchMaxCount ≤ 256

theorem Config.validate_ok_iff (c : Config) : c.validate = .ok () ↔ c.Valid := by
  unfold Config.validate
  constructor
  · intro h
    split_ifs at h with h1 h2 h3 h4 h5 h6
    simp only [minChunkSize, maxChunkSize, minMaxWindow, maxMaxWindow, minReadWorkers,
      minDataSendWorkers, maxDataSendWorkers, minBatchCount, maxBatchCount,
      not_or] at h1 h2 h3 h4 h5 h6
    constructor <;> omega
  · rintro ⟨h1, h1', h2, h3, h3', h4, h5, h5', h6, h6'⟩
    rw [if_neg (by unfold minChunkSize maxChunkSize; omega), if_neg (by omega),
      if_neg (by unfold minMaxWindow maxMaxWindow; omega), if_neg (by unfold minReadWorkers; omega),
      if_neg (by unfold minDataSendWorkers maxDataSendWorkers; omega),
      if_neg (by unfold minBatchCount maxBatchCount; omega)]

theorem Config.setDefaults_idem (c : Config) : c.setDefaults.setDefaults = c.setDefaults := by
  have twice : ∀ x d e : ℤ, d ≠ 0 → orDefault (orDefault x d) e = orDefault x d := by
    intro x d e hd
    by_cases hx : x = 0 <;> simp [orDefault, hx, hd]
  have hw : orDefault c.readWorkers 8 ≠ 0 := by
    by_cases hx : c.readWorkers = 0 <;> simp [orDefault, hx]
  simp only [Config.setDefaults]
  rw [twice _ _ _ (by decide), twice _ _ _ (by decide), twice _ _ _ (by decide),
    twice _ _ _ (by decide), twice _ _ _ (by decide), twice _ _ _ (by decide),
    twice _ _ _ (by decide), twice _ _ _ (by omega)]

theorem Config.zero_setDefaults_valid : Config.zero.setDefaults.Valid := by
  constructor <;> decide

end CephVolsync.Pipeline
