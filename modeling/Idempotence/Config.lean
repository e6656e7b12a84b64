/-
  Configuration — of the engine, of retention and of the durable store.

  Every value has a default, so `{}` is a configuration.  Numbers have the widths that their JSON form
  has, so each of them can be written and read.  A text is first read, then checked; the lock
  timeout is in milliseconds there, and a longer fraction is lost when it is written.
-/
import Idempotence.Error
import Idempotence.Path

namespace Idempotence

/-- **How long records are kept.** -/
structure CleanupConfig where
  /-- Older records are removed. -/
  retentionDays : UInt32 := 30
  /-- How many records one run removes at most. -/
  maxRecords : UInt64 := 1000000
  /-- How many records are removed at a time. -/
  batchSize : UInt64 := 10000
  deriving DecidableEq, Repr, Inhabited

/-- **Where and how large the durable store is.** -/
structure DurableConfig where
  path : String := "idempotency.lmdb"
  /-- Bytes at most. -/
  mapSize : UInt64 := 1073741824
  /-- Readers at a time at most. -/
  maxReaders : UInt32 := 126
  deriving DecidableEq, Repr, Inhabited

/-- **The whole configuration.** -/
structure Config where
  /-- For handlers that set no timeout of their own. -/
  lockTimeout : Duration := Duration.ofSeconds 30
  /-- For handlers whose own settings do not exclude it. -/
  publishing : Option PublishStrategy := none
  cleanup : CleanupConfig := {}
  durable : DurableConfig := {}
  deriving DecidableEq, Repr, Inhabited

/-! ## Checks -/

/-- Refuses empty batches and runs. -/
def CleanupConfig.check (c : CleanupConfig) : Except Error Unit :=
  if c.batchSize = 0 then .error (.assertion .zeroBatchSize)
  else if c.maxRecords = 0 then .error (.assertion .zeroRecordLimit)
  else .ok ()

/-- The age at which records are removed. -/
def CleanupConfig.retention (c : CleanupConfig) : Duration := Duration.ofDays c.retentionDays.toNat

/-- Refuses a store without room or readers. -/
def DurableConfig.check (c : DurableConfig) : Except Error Unit :=
  if c.mapSize = 0 ∨ c.maxReaders = 0 then .error (.assertion .zeroStoreLimit) else .ok ()

namespace Config

/-- **Refuses values that nothing can work with**; the first fault in the order of the fields. -/
def check (c : Config) : Except Error Unit := do
  if c.lockTimeout.nanos = 0 then throw (.assertion .zeroLockTimeout)
  c.cleanup.check
  c.durable.check

/-- **Whether two configurations are the same**, but for the way in which a path is written. -/
def same (c d : Config) : Bool :=
  c == { d with durable := { d.durable with path := c.durable.path } }
    && Path.same c.durable.path d.durable.path

/-! ## JSON form -/

/-- The first number that does not fit 32 bits. -/
def limit32 : Nat := twoTo 32

/-- The first number that does not fit 64 bits. -/
def limit64 : Nat := twoTo 64

/-- A timeout in milliseconds, as far as 64 bits hold them. -/
def timeoutMillis (d : Duration) : Nat := min d.millis (limit64 - 1)

/-- The JSON text of a configuration; its members come in this order. -/
def toText (c : Config) : String :=
  (Json.object
    [ ("default_lock_timeout", .nat (timeoutMillis c.lockTimeout)),
      ("default_publishing", match c.publishing with
        | some s => .string s.name
        | none => .null),
      ("cleanup", .object
        [ ("retention_days", .nat c.cleanup.retentionDays.toNat),
          ("max_records_to_remove", .nat c.cleanup.maxRecords.toNat),
          ("batch_size", .nat c.cleanup.batchSize.toNat) ]),
      ("lmdb", .object
        [ ("path", .string c.durable.path),
          ("map_size", .nat c.durable.mapSize.toNat),
          ("max_readers", .nat c.durable.maxReaders.toNat) ]) ]).render

end Config

/-- Reads the retention part. -/
def CleanupConfig.decoder : Json.Decoder CleanupConfig :=
  .record
    [ ⟨"retention_days", .map (fun n c => { c with retentionDays := .ofNat n }) (.natBelow Config.limit32),
        false, false⟩,
      ⟨"max_records_to_remove", .map (fun n c => { c with maxRecords := .ofNat n }) (.natBelow Config.limit64),
        false, false⟩,
      ⟨"batch_size", .map (fun n c => { c with batchSize := .ofNat n }) (.natBelow Config.limit64),
        false, false⟩ ]
    {}

/-- Reads the part of the durable store. -/
def DurableConfig.decoder : Json.Decoder DurableConfig :=
  .record
    [ ⟨"path", .map (fun s c => { c with path := s }) .string, false, false⟩,
      ⟨"map_size", .map (fun n c => { c with mapSize := .ofNat n }) (.natBelow Config.limit64), false, false⟩,
      ⟨"max_readers", .map (fun n c => { c with maxReaders := .ofNat n }) (.natBelow Config.limit32),
        false, false⟩ ]
    {}

namespace Config

/-- Reads a configuration. -/
def decoder : Json.Decoder Config :=
  .record
    [ ⟨"default_lock_timeout",
        .map (fun n c => { c with lockTimeout := Duration.ofMillis n }) (.natBelow limit64), false, false⟩,
      ⟨"default_publishing",
        .map (fun s c => { c with publishing := s }) (.option PublishStrategy.decoder), false, false⟩,
      ⟨"cleanup", .map (fun p c => { c with cleanup := p }) CleanupConfig.decoder, false, false⟩,
      ⟨"lmdb", .map (fun p c => { c with durable := p }) DurableConfig.decoder, false, false⟩ ]
    {}

/-- **Reads and checks a configuration.** -/
def ofText (text : String) : Except Error Config :=
  match decoder.run text with
  | .error fault => .error (.serialization (fault.message text))
  | .ok c => do
    c.check
    .ok c

/-- The text for developers. -/
def debugText (c : Config) : String :=
  let strategy := match c.publishing with
    | some s => s!"Some({s.debugText})"
    | none => "None"
  "IdempotencyConfig \x7b default_lock_timeout: " ++ c.lockTimeout.text
    ++ ", default_publishing: " ++ strategy
    ++ ", cleanup: CleanupConfig \x7b retention_days: " ++ toString c.cleanup.retentionDays.toNat
    ++ ", max_records_to_remove: " ++ toString c.cleanup.maxRecords.toNat
    ++ ", batch_size: " ++ toString c.cleanup.batchSize.toNat
    ++ " \x7d, lmdb: LmdbConfig \x7b path: " ++ Text.quote c.durable.path
    ++ ", map_size: " ++ toString c.durable.mapSize.toNat
    ++ ", max_readers: " ++ toString c.durable.maxReaders.toNat ++ " \x7d \x7d"

end Config

end Idempotence
