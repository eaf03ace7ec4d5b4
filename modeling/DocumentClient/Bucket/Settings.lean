import DocumentClient.Duration
import DocumentClient.Durability
import DocumentClient.Wire.Bucket

/-!
# Bucket settings

Settings are checked before they are sent. Enumerated settings have fixed numbers on the wire;
a number without a meaning here is refused rather than guessed.
-/

namespace DocumentClient

/-- The values of an enumerated setting and their numbers. -/
structure Numbering (α : Type) where
  title : String
  all : List α
  toWire : α → Int32

def Numbering.ofWire? {α : Type} (numbering : Numbering α) (n : Int32) : Option α :=
  numbering.all.find? fun a => numbering.toWire a = n

inductive BucketType where
  | couchbase | memcached | ephemeral
deriving DecidableEq

namespace BucketType

def text : BucketType → String
  | .couchbase => "Couchbase"
  | .memcached => "Memcached"
  | .ephemeral => "Ephemeral"

def numbering : Numbering BucketType where
  title := "BucketType"
  all := [.couchbase, .memcached, .ephemeral]
  toWire
    | .couchbase => 0
    | .memcached => 1
    | .ephemeral => 2

end BucketType

/-- What leaves the memory when it is full. -/
inductive EvictionPolicy where
  | full | valueOnly | notRecentlyUsed | noEviction
deriving DecidableEq

namespace EvictionPolicy

def text : EvictionPolicy → String
  | .full => "FullEviction"
  | .valueOnly => "ValueOnly"
  | .notRecentlyUsed => "NotRecentlyUsed"
  | .noEviction => "NoEviction"

def numbering : Numbering EvictionPolicy where
  title := "EvictionPolicy"
  all := [.full, .valueOnly, .notRecentlyUsed, .noEviction]
  toWire
    | .full => 0
    | .notRecentlyUsed => 1
    | .valueOnly => 2
    | .noEviction => 3

/-- The policies that a type of bucket can have. -/
def suits (policy : EvictionPolicy) : BucketType → Bool
  | .couchbase => policy = .full ∨ policy = .valueOnly
  | .ephemeral => policy = .notRecentlyUsed ∨ policy = .noEviction
  | .memcached => false

end EvictionPolicy

inductive CompressionMode where
  | off | passive | active
deriving DecidableEq

def CompressionMode.numbering : Numbering CompressionMode where
  title := "CompressionMode"
  all := [.off, .passive, .active]
  toWire
    | .off => 0
    | .passive => 1
    | .active => 2

inductive StorageBackend where
  | couchstore | magma
deriving DecidableEq

def StorageBackend.numbering : Numbering StorageBackend where
  title := "StorageBackend"
  all := [.couchstore, .magma]
  toWire
    | .couchstore => 0
    | .magma => 1

/-- How writes to one document in two clusters are resolved. -/
inductive ConflictResolution where
  | timestamp | sequenceNumber | custom
deriving DecidableEq

def ConflictResolution.numbering : Numbering ConflictResolution where
  title := "ConflictResolutionType"
  all := [.timestamp, .sequenceNumber, .custom]
  toWire
    | .timestamp => 0
    | .sequenceNumber => 1
    | .custom => 2

def minRamQuotaMb : UInt64 := 100
def maxReplicas : UInt32 := 3

/-- The longest name of a bucket, in octets. -/
def maxBucketNameLength : Nat := 100

/-- Why a bucket name or settings are refused. -/
inductive BucketRefusal where
  | emptyName
  | longName
  | nameCharacter (c : Char)
  | ramQuota (mb : UInt64)
  | replicas (n : UInt32)
  | memcachedReplicas
  | eviction (policy : EvictionPolicy) (bucketType : BucketType)
  | maxExpiry
  | magma (bucketType : BucketType)
  | unknownNumber (title : String) (n : Int32)
  | durability (why : DurabilityRefusal)
deriving DecidableEq

def BucketRefusal.message : BucketRefusal → String
  | .emptyName => "bucket name must not be empty"
  | .longName => "bucket name exceeds " ++ Decimal.text maxBucketNameLength ++ " characters"
  | .nameCharacter c => "invalid character '" ++ c.toString ++ "' in bucket name"
  | .ramQuota mb =>
    "ram quota must be at least " ++ Decimal.text minRamQuotaMb.toNat ++ " MB, got "
      ++ Decimal.text mb.toNat
  | .replicas n =>
    "at most " ++ Decimal.text maxReplicas.toNat ++ " replicas are supported, got "
      ++ Decimal.text n.toNat
  | .memcachedReplicas => "memcached buckets do not support replicas"
  | .eviction policy bucketType =>
    policy.text ++ " eviction is not valid for " ++ bucketType.text ++ " buckets"
  | .maxExpiry => "max expiry is out of range"
  | .magma _ => "the magma backend is only available for couchbase buckets"
  | .unknownNumber title n => "unknown " ++ title ++ " value " ++ Decimal.intText n.toInt
  | .durability why => why.message

/-- The characters of bucket names: letters from A to Z, digits and four signs. -/
def isBucketNameChar (c : Char) : Bool :=
  c.isAlphanum || c = '.' || c = '_' || c = '-' || c = '%'

def checkBucketName (name : String) : Except BucketRefusal Unit :=
  if name = "" then .error .emptyName
  else if maxBucketNameLength < name.utf8ByteSize then .error .longName
  else
    match name.toList.find? fun c => !isBucketNameChar c with
    | some c => .error (.nameCharacter c)
    | none => .ok ()

/-- The value with a number. -/
def Numbering.ofWire {α : Type} (numbering : Numbering α) (n : Int32) : Except BucketRefusal α :=
  match numbering.ofWire? n with
  | some a => .ok a
  | none => .error (.unknownNumber numbering.title n)

structure BucketSettings where
  name : String
  bucketType : BucketType := .couchbase
  ramQuotaMb : UInt64 := minRamQuotaMb
  replicas : Option UInt32 := none
  flush : Option Bool := none
  replicaIndexes : Option Bool := none
  eviction : Option EvictionPolicy := none
  maxExpiry : Option Duration := none
  compression : Option CompressionMode := none
  durability : Option DurabilityLevel := none
  backend : Option StorageBackend := none
  conflict : Option ConflictResolution := none
deriving DecidableEq

namespace BucketSettings

def checkRamQuota (s : BucketSettings) : Except BucketRefusal Unit :=
  if s.ramQuotaMb < minRamQuotaMb then .error (.ramQuota s.ramQuotaMb) else .ok ()

def checkReplicas (s : BucketSettings) : Except BucketRefusal Unit :=
  match s.replicas with
  | none => .ok ()
  | some n =>
    if maxReplicas < n then .error (.replicas n)
    else if 0 < n ∧ s.bucketType = .memcached then .error .memcachedReplicas
    else .ok ()

def checkEviction (s : BucketSettings) : Except BucketRefusal Unit :=
  match s.eviction with
  | none => .ok ()
  | some policy =>
    if policy.suits s.bucketType then .ok () else .error (.eviction policy s.bucketType)

def checkMaxExpiry (s : BucketSettings) : Except BucketRefusal Unit :=
  match s.maxExpiry with
  | none => .ok ()
  | some d => if d.seconds < UInt32.size then .ok () else .error .maxExpiry

def checkBackend (s : BucketSettings) : Except BucketRefusal Unit :=
  if s.backend = some .magma ∧ s.bucketType ≠ .couchbase then .error (.magma s.bucketType)
  else .ok ()

/-- Checks settings before they are sent; the first rule that fails is reported. -/
def validate (s : BucketSettings) : Except BucketRefusal Unit := do
  checkBucketName s.name
  s.checkRamQuota
  s.checkReplicas
  s.checkEviction
  s.checkMaxExpiry
  s.checkBackend

/-- Of a maximal expiry the whole seconds are sent, of a durability level one that asks for
something. -/
def toWire (s : BucketSettings) : Wire.BucketSettings where
  name := s.name
  bucketType := BucketType.numbering.toWire s.bucketType
  ramQuotaMb := s.ramQuotaMb
  replicas := s.replicas
  flush := s.flush
  replicaIndexes := s.replicaIndexes
  eviction := s.eviction.map EvictionPolicy.numbering.toWire
  maxExpirySecs := s.maxExpiry.map fun d => UInt32.ofNat d.seconds
  compression := s.compression.map CompressionMode.numbering.toWire
  durability := s.durability.bind DurabilityLevel.toWire
  backend := s.backend.map StorageBackend.numbering.toWire
  conflict := s.conflict.map ConflictResolution.numbering.toWire

/-- Reads a number that may be absent. -/
def readOptional {α : Type} (read : Int32 → Except BucketRefusal α) :
    Option Int32 → Except BucketRefusal (Option α)
  | none => .ok none
  | some n =>
    match read n with
    | .ok a => .ok (some a)
    | .error why => .error why

def readDurability (n : Int32) : Except BucketRefusal DurabilityLevel :=
  match DurabilityLevel.ofWire n with
  | .ok level => .ok level
  | .error why => .error (.durability why)

def ofWire (w : Wire.BucketSettings) : Except BucketRefusal BucketSettings := do
  let bucketType ← BucketType.numbering.ofWire w.bucketType
  let eviction ← readOptional EvictionPolicy.numbering.ofWire w.eviction
  let compression ← readOptional CompressionMode.numbering.ofWire w.compression
  let durability ← readOptional readDurability w.durability
  let backend ← readOptional StorageBackend.numbering.ofWire w.backend
  let conflict ← readOptional ConflictResolution.numbering.ofWire w.conflict
  return {
    name := w.name
    bucketType
    ramQuotaMb := w.ramQuotaMb
    replicas := w.replicas
    flush := w.flush
    replicaIndexes := w.replicaIndexes
    eviction
    maxExpiry := w.maxExpirySecs.map fun n => Duration.ofSeconds n.toNat
    compression
    durability
    backend
    conflict }

/-- Reads all settings of a listing. -/
def listOfWire : List Wire.BucketSettings → Except BucketRefusal (List BucketSettings)
  | [] => .ok []
  | w :: rest =>
    match ofWire w with
    | .error why => .error why
    | .ok s =>
      match listOfWire rest with
      | .error why => .error why
      | .ok ss => .ok (s :: ss)

end BucketSettings
end DocumentClient
