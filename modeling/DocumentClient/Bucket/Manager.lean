import DocumentClient.Options.Typed
import DocumentClient.Service.Exchange

/-!
# Managing buckets

Buckets are created, changed, dropped and listed. One bucket is found in the listing of all of
them. Settings and names are checked before the options.
-/

namespace DocumentClient.BucketManager

def limit (configuration : Configuration) (options : CallOptions) : Except Error Duration :=
  (orRefuse .option (options.resolve .management)).map fun fields =>
    fields.timeout?.getD configuration.managementTimeout

/-- Creates a bucket. -/
def create (configuration : Configuration) (settings : BucketSettings) (options : CallOptions) :
    Except Error (Exchange Unit) := do
  orRefuse .bucket settings.validate
  let limit ← limit configuration options
  return {
    operation := .management
    resource := settings.name
    limit
    method := .createBucket
    request := ⟨some settings.toWire⟩
    read := fun _ => .ok () }

/-- Changes the settings of a bucket. -/
def update (configuration : Configuration) (settings : BucketSettings) (options : CallOptions) :
    Except Error (Exchange Unit) := do
  orRefuse .bucket settings.validate
  let limit ← limit configuration options
  return {
    operation := .management
    resource := settings.name
    limit
    method := .updateBucket
    request := ⟨some settings.toWire⟩
    read := fun _ => .ok () }

/-- Drops a bucket. -/
def drop (configuration : Configuration) (name : String) (options : CallOptions) :
    Except Error (Exchange Unit) := do
  orRefuse .bucket (checkBucketName name)
  let limit ← limit configuration options
  return {
    operation := .management
    resource := name
    limit
    method := .deleteBucket
    request := ⟨name⟩
    read := fun _ => .ok () }

/-- The settings of all buckets in the order of the listing. -/
def readListing (reply : Wire.ListBucketsResponse) : Except Error (List BucketSettings) :=
  orRefuse .bucket (BucketSettings.listOfWire reply.buckets)

/-- The first bucket of a name. -/
def findByName (name : String) (settings : List BucketSettings) : Except Error BucketSettings :=
  match settings.find? fun s => s.name = name with
  | some s => .ok s
  | none => .error (.bucketMissing name)

/-- Lists all buckets. -/
def getAll (configuration : Configuration) (options : CallOptions) :
    Except Error (Exchange (List BucketSettings)) := do
  let limit ← limit configuration options
  return {
    operation := .management
    resource := "buckets"
    limit
    method := .listBuckets
    request := {}
    read := readListing }

/-- Finds one bucket in the listing. -/
def get (configuration : Configuration) (name : String) (options : CallOptions) :
    Except Error (Exchange BucketSettings) := do
  orRefuse .bucket (checkBucketName name)
  let limit ← limit configuration options
  return {
    operation := .management
    resource := "buckets"
    limit
    method := .listBuckets
    request := {}
    read := fun reply => (readListing reply).bind (findByName name) }

end DocumentClient.BucketManager
