/-
  LinuxCodeDemos.TcpFile.Server

  The server of `socket/tcp_00/server.c`: `child_handler`, `receive_file` and
  `send_file` on one accepted connection.

  - The connection is the bytes the peer has sent and will send, and the counts
    that the following `recv` calls return at most; without a count a call
    returns all it asked for.  At the end of the stream `recv` returns nothing.
  - `recv` takes its length as a `size_t`, so a negative `int` asks for all
    there is.
  - `buffer` and `filebuf` are 2048 bytes of plain `char`, signed as on x86: the
    length fields are sign-extended before they are put together.
  - Copying past `buffer` is `Fault.write`, reading past it `Fault.read`.
-/

import LinuxCodeDemos.TcpFile.Client

namespace LinuxCodeDemos.TcpFile

open Lib

/-- An accepted connection. -/
structure Conn where
  incoming : List UInt8
  counts : List Nat
  deriving DecidableEq, Repr

/-- How many bytes `recv (fd, .., len, 0)` returns. -/
def recvCount (c : Conn) (len : Int) : Nat :=
  let available := if len < 0 then c.incoming.length else min len.toNat c.incoming.length
  match c.counts with
  | [] => available
  | count :: _ => min count available

/-- `recv (fd, &buffer[off], len, 0)`; nobody looks at its result. -/
def recv (c : Conn) (buffer : List UInt8) (off : Nat) (len : Int) :
    Except Fault (Conn × List UInt8) := do
  let n := recvCount c len
  let buffer ← store buffer off (c.incoming.take n)
  .ok ({ incoming := c.incoming.drop n, counts := c.counts.tail }, buffer)

def bufferSize : Nat := 2048

/-- A buffer after `bzero`. -/
def zeroBuffer : List UInt8 := List.replicate bufferSize 0

/-- A `char` promoted to `int`. -/
def charInt (b : UInt8) : BitVec 32 := b.toBitVec.signExtend 32

/-- `hi << 8 | lo` on two `char`. -/
def charWord (lo hi : UInt8) : Int := (charInt hi <<< 8 ||| charInt lo).toInt

/-- The text of a `char` array. -/
def cString (bs : List UInt8) : List UInt8 := bs.takeWhile (· ≠ 0)

/-- How a connection was left. -/
inductive SessionEnd where
  | crcError
  | badCommand (cmd : Int)
  | notOpened
  | complete
  | sent
  | running
  deriving DecidableEq, Repr

/-- What the server did on a connection: the name it passed to `open`, the bytes
    it passed to `write` and to `send`. -/
structure Session where
  opened : Option (List UInt8)
  written : List UInt8
  sent : List UInt8
  ending : SessionEnd
  deriving DecidableEq, Repr

/-- The files of the server. -/
structure ServerEnv where
  /-- `open (name, O_WRONLY | O_CREAT)` succeeds. -/
  canWrite : List UInt8 → Bool
  /-- The content of a file that `open (name, O_RDONLY)` finds. -/
  content : List UInt8 → Option (List UInt8)

/-- The first part of `receive_file` and of `send_file`: the name message. -/
def receiveName (c : Conn) : Except Fault (Conn × Option (List UInt8)) := do
  let (c, buffer) ← recv c zeroBuffer 0 2
  let length := charWord (buffer.getD 0 0) (buffer.getD 1 0)
  let (c, buffer) ← recv c buffer 2 length
  let ret ← packageCheck buffer (length + 2)
  .ok (c, if ret then some (cString ((buffer.drop 2).take 255)) else none)

/-- `write (filefd, filebuf, len)`: the bytes handed over.  A negative length is a
    `size_t` that `write` refuses; the server says so and goes on. -/
def fileWrite (filebuf : List UInt8) (len : Int) : Except Fault (List UInt8) :=
  if len < 0 then .ok [] else loadBytes filebuf 0 len.toNat

/-- The receive loop of `receive_file`: the bytes written and how it ended.  A
    turn that goes on has taken at least one byte off the stream. -/
def receiveDatas : Nat → Conn → List UInt8 → Except Fault (List UInt8 × SessionEnd)
  | 0, _, written => .ok (written, .running)
  | fuel + 1, c, written => do
      let (c, buffer) ← recv c zeroBuffer 0 4
      let length := charWord (buffer.getD 0 0) (buffer.getD 1 0)
      if buffer.getD 2 0 = cmdComplete then .ok (written, .complete)
      else do
        let (c, buffer) ← recv c buffer 4 (length - 2)
        let ret ← packageCheck buffer (length + 2)
        if ret then do
          let datas ← loadBytes buffer 4 (length - 4).toNat
          let filebuf ← store zeroBuffer 0 datas
          let out ← fileWrite filebuf (length - 4)
          receiveDatas fuel c (written ++ out)
        else .ok (written, .crcError)

/-- `receive_file`. -/
def receiveFile (env : ServerEnv) (c : Conn) : Except Fault Session := do
  let (c, fileName) ← receiveName c
  match fileName with
  | none => .ok { opened := none, written := [], sent := [], ending := .crcError }
  | some name =>
      if env.canWrite name then do
        let (written, ending) ← receiveDatas (c.incoming.length + 1) c []
        .ok { opened := some name, written, sent := [], ending }
      else .ok { opened := some name, written := [], sent := [], ending := .notOpened }

/-- `send_file` of the server: the requested file, then the closing command. -/
def serverSendFile (env : ServerEnv) (c : Conn) : Except Fault Session := do
  let (_, fileName) ← receiveName c
  match fileName with
  | none => .ok { opened := none, written := [], sent := [], ending := .crcError }
  | some name => do
      let datas ← match env.content name with
        | none => .ok []
        | some bytes => sendDatas bytes
      let complete ← sealMessage (commandBody cmdComplete)
      .ok { opened := some name, written := [], sent := datas ++ complete, ending := .sent }

/-- `child_handler`. -/
def childHandler (env : ServerEnv) (c : Conn) : Except Fault Session := do
  let (c, buffer) ← recv c zeroBuffer 0 6
  let ret ← packageCheck buffer 6
  if ret then
    let cmd := charWord (buffer.getD 2 0) (buffer.getD 3 0)
    if cmd = cmdReceive.toNat then receiveFile env c
    else if cmd = cmdSend.toNat then serverSendFile env c
    else .ok { opened := none, written := [], sent := [], ending := .badCommand cmd }
  else .ok { opened := none, written := [], sent := [], ending := .crcError }

end LinuxCodeDemos.TcpFile
