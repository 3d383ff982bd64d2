import Ladybug.Httpfs.S3Url

/-!
# Listings of a bucket (`httpfs/src/s3fs.cpp`, `AWSListObjectV2`)

A listing is asked for page by page.  The responses are not parsed as documents: the keys and the
token of the next page are what stands between two tags.
-/

namespace Ladybug.S3Glob

open Markup

/-- The functions of the core, and the server's answers to a `GET`: the first argument is the
protocol and the host, the second the path with its parameters. -/
structure Client where
  encodeURL : Bytes → Bool → Bytes
  split : Bytes → Bytes → List Bytes
  get : Bytes → Bytes → Except Stop Bytes

def percent : UInt8 := '%'.toUInt8

def plus : UInt8 := '+'.toUInt8

def space : UInt8 := ' '.toUInt8

def hexDigit (c : UInt8) : Option Nat :=
  if '0'.toUInt8 ≤ c ∧ c ≤ '9'.toUInt8 then some (c.toNat - 48)
  else if 'a'.toUInt8 ≤ c ∧ c ≤ 'f'.toUInt8 then some (c.toNat - 87)
  else if 'A'.toUInt8 ≤ c ∧ c ≤ 'F'.toUInt8 then some (c.toNat - 55)
  else none

def isSpace (c : UInt8) : Bool := c == space || (9 ≤ c && c ≤ 13)

/-- The digits up to the first character that is none. -/
def hexDigits (value : Nat) : Bytes → Nat
  | [] => value
  | c :: rest =>
    match hexDigit c with
    | some digit => hexDigits (16 * value + digit) rest
    | none => value

/-- `std::strtoul(text, nullptr, 16)` of a text too short for the value to overflow.  A `0x` in
front of a digit needs three characters, and the callers pass two. -/
def strtoul16 (text : Bytes) : Nat :=
  match text.dropWhile isSpace with
  | [] => 0
  | c :: rest =>
    if c = '-'.toUInt8 then (2 ^ 64 - hexDigits 0 rest) % 2 ^ 64
    else if c = plus then hexDigits 0 rest
    else hexDigits 0 (c :: rest)

def decodeLoop : Bytes → Bytes
  | [] => []
  | c :: rest =>
    if c = percent then
      match rest with
      | high :: low :: rest => UInt8.ofNat (strtoul16 [high, low]) :: decodeLoop rest
      | cut => [UInt8.ofNat (strtoul16 cut)]
    else c :: decodeLoop rest

def decodeURL (input : Bytes) : Bytes :=
  decodeLoop (input.map fun c => if c = plus then space else c)

/-- The path and the parameters of a request. -/
def listObjectV2URL (client : Client) (params : S3AuthParams) (bucket keyPrefix
    continuationToken : Bytes) : Bytes :=
  let requestPath :=
    if params.urlStyle = ascii "path" then ascii "/" ++ bucket ++ ascii "/" else ascii "/"
  let token :=
    if continuationToken.isEmpty then []
    else ascii "continuation-token=" ++ client.encodeURL continuationToken true ++ ascii "&"
  requestPath ++ ascii "?" ++ (token ++ ascii "encoding-type=url&list-type=2"
    ++ (ascii "&prefix=" ++ client.encodeURL keyPrefix true))

/-- A path without its slash and, in path style, without the bucket. -/
def keyOfPath (params : S3AuthParams) (parsedURL : ParsedS3URL) : Except Stop Bytes := do
  let key ← substr parsedURL.path 1
  if params.urlStyle = ascii "path" then substr key (parsedURL.bucket.length + 1) else .ok key

def request (client : Client) (config : S3FileSystemConfig) (params : S3AuthParams)
    (path continuationToken : Bytes) : Except Stop Bytes := do
  let parsedURL ← parseS3URL config params path
  let keyPrefix ← keyOfPath params parsedURL
  client.get (parsedURL.httpProto ++ parsedURL.host)
    (listObjectV2URL client params parsedURL.bucket keyPrefix continuationToken)

def OPEN_KEY_TAG : Bytes := ascii "<Key>"

def CLOSE_KEY_TAG : Bytes := ascii "</Key>"

def OPEN_CONTINUATION_TAG : Bytes := ascii "<NextContinuationToken>"

def CLOSE_CONTINUATION_TAG : Bytes := ascii "</NextContinuationToken>"

def OPEN_COMMON_PREFIX_TAG : Bytes := ascii "<CommonPrefixes>"

def OPEN_PREFIX_TAG : Bytes := ascii "<Prefix>"

def CLOSE_PREFIX_TAG : Bytes := ascii "</Prefix>"

def failedToParse : Stop := .error "Failed to parse S3 result."

def between (text : Bytes) (start stop : Nat) : Bytes := (text.drop start).take (stop - start)

def parseKey (awsResponse : Bytes) : Nat → Nat → List Bytes → Except Stop (List Bytes)
  | 0, _, _ => .error .diverged
  | fuel + 1, curPos, result =>
    match findFrom awsResponse OPEN_KEY_TAG curPos with
    | none => .ok result
    | some nextOpenTagPos =>
      match findFrom awsResponse CLOSE_KEY_TAG (nextOpenTagPos + OPEN_KEY_TAG.length) with
      | none => .error failedToParse
      | some nextCloseTagPos =>
        let parsedPath :=
          decodeURL (between awsResponse (nextOpenTagPos + 5) nextCloseTagPos)
        match parsedPath.getLast? with
        -- `back()` of an empty string is undefined
        | none => .error .outOfRange
        | some last =>
          parseKey awsResponse fuel (nextCloseTagPos + CLOSE_KEY_TAG.length)
            (if last ≠ slash then result ++ [parsedPath] else result)

def parseContinuationToken (awsResponse : Bytes) : Except Stop Bytes :=
  match findFrom awsResponse OPEN_CONTINUATION_TAG 0 with
  | none => .ok []
  | some openTagPos =>
    match findFrom awsResponse CLOSE_CONTINUATION_TAG
        (openTagPos + OPEN_CONTINUATION_TAG.length) with
    | none => .error failedToParse
    | some closeTagPos =>
      .ok (between awsResponse (openTagPos + OPEN_CONTINUATION_TAG.length) closeTagPos)

def parseCommonPrefix (awsResponse : Bytes) : Nat → Nat → List Bytes → Except Stop (List Bytes)
  | 0, _, _ => .error .diverged
  | fuel + 1, curPos, s3Prefixes =>
    match findFrom awsResponse OPEN_COMMON_PREFIX_TAG curPos with
    | none => .ok s3Prefixes
    | some curPos =>
      match findFrom awsResponse OPEN_PREFIX_TAG curPos with
      | none => .error (.error "Parsing error while parsing s3 listobject result.")
      | some nextOpenTagPos =>
        match findFrom awsResponse CLOSE_PREFIX_TAG
            (nextOpenTagPos + OPEN_PREFIX_TAG.length) with
        | none => .error failedToParse
        | some nextCloseTagPos =>
          -- the shorter tag's length is added
          parseCommonPrefix awsResponse fuel (nextCloseTagPos + CLOSE_KEY_TAG.length)
            (s3Prefixes ++ [between awsResponse (nextOpenTagPos + OPEN_PREFIX_TAG.length)
              nextCloseTagPos])

end Ladybug.S3Glob
