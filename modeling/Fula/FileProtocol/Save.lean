import Fula.AsyncLater.Subject
import Fula.AsyncLater.ChainParts
import Fula.FileProtocol.SendFile
import Fula.FileProtocol.Schema

/-!
# Uploads: `sendFile`, `streamFile`, `handler`, `save` and the storing subscriber

The client writes a header and the content to a stream. On the box `handler`
cuts the stream with `partition(1, ..)`, decodes the header and calls `save`,
which announces the upload on `incomingFiles` and then copies the rest of the
stream into a hot `Subject`. The subscriber that `registerFile` installed is
called by the announcement: it subscribes to that subject through
`getContent()` and hands the iterable to `ipfsNode.add`, then adds the record
of the file and declares its id, which `save` returns as the answer.

`Upload` is the state of one upload on both sides, and `step` its next step;
the box serves any number of them side by side.
-/

namespace Fula.FileProtocol
set_option autoImplicit false
open Lib AsyncLater Schema

/-! ## The client -/

/-- A `File` of the web platform. -/
structure WebFile where
  name : String
  type : String
  lastModified : SafeInt
  content : Bytes
  size_safe : content.length ≤ maxSafeInteger

def WebFile.size (file : WebFile) : SafeNat := ⟨file.content.length, file.size_safe⟩

inductive Client where
  /-- `sendFile({connection, file})` -/
  | sendFile (file : WebFile)
  /-- `streamFile({connection, source, meta})` -/
  | streamFile (source : List Bytes) (info : Meta)

namespace Client

/-- What the header says of the file. -/
def info : Client → Meta
  | .sendFile file => { name := file.name, type := file.type, size := file.size, lastModified := file.lastModified }
  | .streamFile _ info =>
    { name := info.name, type := info.type, size := info.size, lastModified := info.lastModified }

def content : Client → Bytes
  | .sendFile file => file.content
  | .streamFile source _ => source.flatten

def header (c : Client) : Option Bytes := (Request.send c.info).toBinary

/-- What is written after the header. -/
def blocks (aes : AesJs) : Client → Option (List Bytes)
  | .sendFile file => SendFile.sendContent aes [] [] file.content
  | .streamFile source _ => some source

end Client

/-- A client and what its stream delivers: the header as a message of its own,
then the written bytes in order, in messages of any length. -/
structure Transmission (aes : AesJs) where
  client : Client
  header : Bytes
  body : List Bytes
  headerSent : client.header = some header
  bodySent : ∃ blocks, client.blocks aes = some blocks ∧ body.flatten = blocks.flatten

namespace Transmission

variable {aes : AesJs} (x : Transmission aes)

/-- The header is read as it was written, but for a U+FEFF in front of the name or the type. -/
theorem header_read : Request.fromBinary x.header = some (.send x.client.info.received) :=
  Request.fromBinary_toBinary x.headerSent

theorem body_content : x.body.flatten = x.client.content := by
  obtain ⟨blocks, sent, same⟩ := x.bodySent
  rw [same]
  cases client : x.client with
  | sendFile file =>
    obtain ⟨blocks', sent', whole⟩ := SendFile.sendContent_plain aes [] file.content
    rw [client, Client.blocks, sent', Option.some.injEq] at sent
    rw [← sent, whole]; rfl
  | streamFile source info =>
    rw [client] at sent
    cases sent; rfl

end Transmission

/-! ## The box -/

/-- Where `handler`, and then `save`, is. -/
inductive Handling where
  /-- In `await firstValue(streamHead)`. -/
  | firstValue
  /-- `consume` has taken `taken` messages and is about to call `next()`. -/
  | pulling (taken : Nat)
  | awaiting (taken : Nat)
  /-- In `await promiseId`. -/
  | saved
  | responded
  /-- A request of another kind. -/
  | other
  | failed
  deriving DecidableEq

/-- Where the subscriber of `incomingFiles` is with this upload. -/
inductive Store where
  | idle
  /-- In `await ipfsNode.add(getContent())`. -/
  | adding (info : Meta)
  /-- In `await ipfsNode.add(File.toBinary(..))`. -/
  | recording (info : Meta) (file : Cid)
  | declared (id : Cid)

def Store.isIdle : Store → Bool
  | .idle => true
  | _ => false

structure Upload (ε : Type) where
  /-- The stream, with the two parts that `partition(1, ..)` makes of it. -/
  chain : Chain Bytes ε
  handling : Handling := .firstValue
  /-- The subject made by `save`. -/
  content : Subject Bytes ε := {}
  store : Store := .idle
  /-- The message written by `handler`. -/
  response : Option Bytes := none
  /-- What `sendFile` or `streamFile` returns. -/
  received : Option String := none

namespace Upload

variable {ε : Type}

/-- The handler is called: it cuts the stream and calls `next()` on its head. -/
def start {aes : AesJs} (x : Transmission aes) : Upload ε :=
  let chain : Chain Bytes ε := Chain.init 1 (x.header :: x.body) none
  { chain := (Chain.step chain (.pullFirst 0)).getD chain }

/-- The answers to the calls made on `streamHead` and `streamTail`. -/
def head (u : Upload ε) : List (Result Bytes ε) := (u.chain.stages[0]?).elim [] (·.first.gen.results)
def tail (u : Upload ε) : List (Result Bytes ε) := (u.chain.stages[0]?).elim [] (·.second.gen.results)

/-- What `ipfsNode.add` has read, when it has read to the end. -/
def readToEnd (results : List (Result Bytes ε)) : Option Bytes :=
  if results.any (·.isDone) then some (results.filterMap Result.value?).flatten else none

inductive Act where
  /-- The stream delivers, the pump takes, a queue of the partition answers. -/
  | stream (a : Chain.Act)
  /-- `firstValue(streamHead)` is answered. -/
  | head
  | pullTail
  | takeTail
  /-- `ipfsNode.add` calls `next()` on the content. -/
  | pullContent
  | tickContent
  /-- `ipfsNode.add` of the content resolves. -/
  | added
  /-- `ipfsNode.add` of the record resolves. -/
  | recorded
  | respond
  /-- The answer reaches the client. -/
  | receive
  deriving DecidableEq

/-- All but the calls of `ipfsNode.add`, which reads as it likes. -/
def internal : Act → Prop
  | .pullContent => False
  | _ => True

/-- `handler` goes on with the first value of the stream. -/
def handle (u : Upload ε) : Result Bytes ε → Upload ε
  | .value message =>
    match Request.fromBinary message with
    -- the announcement calls the subscriber, which subscribes and starts to add
    | some (.send info) =>
      { u with handling := .pulling 0, content := u.content.toAsyncIterable, store := .adding info }
    | some _ => { u with handling := .other }
    | none => { u with handling := .failed }
  | _ => { u with handling := .failed }

/-- `save` goes on with the answer to its call number `taken`. -/
def forward (u : Upload ε) (taken : Nat) : Result Bytes ε → Upload ε
  | .value message => { u with content := u.content.next message, handling := .pulling (taken + 1) }
  | .done => { u with content := u.content.complete, handling := .saved }
  | .error _ => { u with handling := .failed }

def step (add : Bytes → Cid) (u : Upload ε) : Act → Option (Upload ε)
  | .stream a =>
    if Chain.internal a then (Chain.step u.chain a).map fun chain => { u with chain } else none
  | .head =>
    match u.handling with
    | .firstValue => (u.head[0]?).map u.handle
    | _ => none
  | .pullTail =>
    match u.handling with
    | .pulling taken => (Chain.step u.chain .pullLast).map fun chain => { u with chain, handling := .awaiting taken }
    | _ => none
  | .takeTail =>
    match u.handling with
    | .awaiting taken => (u.tail[taken]?).map (u.forward taken)
    | _ => none
  | .pullContent =>
    match u.store with
    | .adding _ => (u.content.observers[0]?).map fun later => { u with content := u.content.set 0 later.pull }
    | _ => none
  | .tickContent => (u.content.observers[0]?).bind fun later =>
    (later.tick noPromises).map fun later => { u with content := u.content.set 0 later }
  | .added =>
    match u.store, u.content.observers[0]? with
    | .adding info, some later =>
      (readToEnd later.gen.results).map fun content => { u with store := .recording info (add content) }
    | _, _ => none
  | .recorded =>
    match u.store with
    | .recording info file =>
      ((File.toBinary { meta_ := some info, contentPath := file.text }).map add).map fun id =>
        { u with store := .declared id }
    | _ => none
  | .respond =>
    match u.handling, u.store with
    | .saved, .declared id => some { u with response := some (encodeText id.text), handling := .responded }
    | _, _ => none
  | .receive =>
    match u.response, u.received with
    | some message, none => (decodeText message).map fun id => { u with received := some id }
    | _, _ => none

end Upload

/-- The id of a stored file. -/
def fileId (add : Bytes → Cid) (info : Meta) (content : Bytes) : Option Cid :=
  (File.toBinary { meta_ := some info, contentPath := (add content).text }).map add

end Fula.FileProtocol
