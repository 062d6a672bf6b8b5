import EvmState.DataTypes
import EvmState.Lib.Framing
import EvmState.Lib.Lists
import EvmState.Lib.Text

/-!
# Fetching blocks from the portal

`stream_blocks` asks the portal for a range, one request after another. A response
is newline-delimited JSON that arrives in chunks; each line is parsed and yielded as
soon as its newline is there, and the last one may go without. The next request
starts behind the last block that came, until a response has no block or the end of
the range is reached.

How a line is parsed is left to serde. The portal is a parameter: what it replies
to the `k`-th request and, where that is retried, to each attempt.
-/

namespace EvmState

open Framing

/-- `evm_state_sqd_fetcher::Error`, one case for each place that raises it. -/
inductive FetchError where
  | http
  /-- `portal returned {status}`, after the last retry. -/
  | portalReturned (status : Nat)
  /-- `portal error: …`, for any other status that is an error. -/
  | portalError (status : Nat)
  | maxRetries
  /-- `invalid UTF-8 in response: …`. -/
  | invalidUtf8
  /-- `portal returned a JSON array, but expected newline-delimited JSON (NDJSON)`. -/
  | jsonArray
  /-- `failed to parse block: …`, with the first 200 bytes of the line as content. -/
  | parseBlock (content : String)
  /-- No error of the source: a slice that ends inside a character is a panic. -/
  | sliceInChar
deriving DecidableEq, Repr

/-- What comes back from one attempt at a request. -/
inductive Reply where
  /-- A response whose body arrives in chunks, until one fails. -/
  | response (status : Nat) (body : List (Except FetchError Bytes))
  /-- A timeout, or no connection. -/
  | transient
  | failed

def MAX_RETRIES : Nat := 5

/-- The attempts from `attempt` on; `last` is the error of the one before. -/
def attempts (reply : Nat → Reply) (attempt : Nat) (last : FetchError) :
    Nat → Except FetchError (List (Except FetchError Bytes))
  | 0 => .error last
  | left + 1 =>
      match reply attempt with
      | .response status body =>
          if 500 ≤ status ∧ status < 600 then
            attempts reply (attempt + 1) (.portalReturned status) left
          else if 400 ≤ status ∧ status < 500 then .error (.portalError status)
          else .ok body
      | .transient => attempts reply (attempt + 1) .http left
      | .failed => .error .http

/-- `start_request`, without the waiting between attempts. -/
def startRequest (reply : Nat → Reply) : Except FetchError (List (Except FetchError Bytes)) :=
  attempts reply 0 .maxRetries MAX_RETRIES

/-- What one request has yielded so far. -/
structure PageState where
  lastBlock : Option U64 := none
  gotAny : Bool := false
  yielded : List Block := []

section Stream

variable (fromStr : String → Option Block)

/-- `parse_block_line`. -/
def parseBlockLine (line : String) : Except FetchError Block :=
  if line.toList.head? = some '[' then .error .jsonArray
  else
    match fromStr line with
    | some block => .ok block
    | none =>
        -- `&line[..line.len().min(200)]`
        match Text.takeBytes 200 line.toList with
        | some content => .error (.parseBlock (String.ofList content))
        | none => .error .sliceInChar

/-- A line of the body; `none` if it is blank. -/
def readLine (bytes : Bytes) : Except FetchError (Option Block) :=
  match fromUtf8 bytes with
  | none => .error .invalidUtf8
  | some cs =>
      if (Text.trim cs).isEmpty then .ok none
      else
        match parseBlockLine fromStr (String.ofList (Text.trim cs)) with
        | .ok block => .ok (some block)
        | .error e => .error e

/-- Yield a block that was read. -/
def PageState.push (st : PageState) : Option Block → PageState
  | some block =>
      { lastBlock := some block.header.number, gotAny := true, yielded := st.yielded ++ [block] }
  | none => st

/-- The lines a buffer holds, one after another. -/
def readLines (lines : List Bytes) (st : PageState) : PageState × Except FetchError Unit :=
  Lists.runUntil PageState.push (lines.map (readLine fromStr)) st

/-- The body of one response; `buffer` is what no newline has come for yet. -/
def readBody (buffer : Bytes) :
    List (Except FetchError Bytes) → PageState → PageState × Except FetchError Unit
  | [], st =>
      -- trailing data: the last line without its newline
      if buffer.isEmpty then (st, .ok ()) else readLines fromStr [buffer] st
  | .error e :: _, st => (st, .error e)
  | .ok chunk :: chunks, st =>
      let cut := split 10 [] (buffer ++ chunk)
      match readLines fromStr cut.1 st with
      | (st', .ok ()) => readBody cut.2 chunks st'
      | (st', .error e) => (st', .error e)

/-- The portal: what it replies to each attempt at the `k`-th request. -/
abbrev Portal := Nat → U64 → Option U64 → Nat → Reply

/--
What `stream_blocks` yields from the `k`-th request on, if it has ended after at most
`fuel` of them. An error is the last item, and so is a panic.
-/
def streamFrom (portal : Portal) (toBlock : Option U64) :
    Nat → Nat → U64 → Option (List (Except FetchError Block))
  | 0, _, _ => none
  | fuel + 1, k, current =>
      if toBlock.any (fun n => decide (n < current)) then some []
      else
        match startRequest (portal k current toBlock) with
        | .error e => some [.error e]
        | .ok chunks =>
            let page := readBody fromStr [] chunks {}
            let items := page.1.yielded.map Except.ok
            match page.2 with
            | .error e => some (items ++ [.error e])
            | .ok () =>
                -- an empty response means the dataset is exhausted
                if !page.1.gotAny then some items
                else
                  let last := page.1.lastBlock.getD 0
                  if toBlock.any (fun n => decide (n ≤ last)) then some items
                  else (streamFrom portal toBlock fuel (k + 1) (last + 1)).map (items ++ ·)

/-- `stream_blocks`, if it has ended after at most `fuel` requests. -/
def streamBlocks (portal : Portal) (fuel : Nat) (fromBlock : U64)
    (toBlock : Option U64) : Option (List (Except FetchError Block)) :=
  streamFrom fromStr portal toBlock fuel 0 fromBlock

end Stream

end EvmState
