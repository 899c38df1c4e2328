/-
  LinuxCodeDemos.TcpFile.Client

  What the client of `socket/tcp_00/client.c` sends for an upload.

  - `main` copies the file name and counts its bytes, the terminating NUL
    included.
  - `send_file` sends a command, the name, the file in chunks of 1024 bytes and
    a closing command.  Every message starts with its length, low byte first,
    and ends with its checksum.

  A message is built in `buffer[2048]` by `buffer[pos++] = ...`; it is the list
  of these bytes here.  The longest one has 1030 bytes.
-/

import LinuxCodeDemos.TcpFile.Crc

namespace LinuxCodeDemos.TcpFile

open Lib

def cmdReceive : UInt8 := 1
def cmdSend : UInt8 := 2
def cmdFileDatas : UInt8 := 3
def cmdComplete : UInt8 := 4

-- ============================================================================
-- The file name
-- ============================================================================

/-- The globals `file_name` and `file_name_length`. -/
structure ClientName where
  fileName : List UInt8
  fileNameLength : Nat
  deriving DecidableEq, Repr

/-- The loop of `main` over `argv[3]`, with `turns` left of its 256 turns.  A
    byte past the end of `argv` is its NUL. -/
def scanNameLoop (argv : List UInt8) : Nat → Nat → ClientName → ClientName
  | 0, _, name => name
  | turns + 1, i, name =>
      let name := { name with fileNameLength := name.fileNameLength + 1 }
      if argv.getD i 0 ≠ 0 then
        scanNameLoop argv turns (i + 1)
          { name with fileName := name.fileName.set i (argv.getD i 0) }
      else name

/-- `file_name` and `file_name_length` after the loop of `main`. -/
def scanName (argv : List UInt8) : ClientName :=
  scanNameLoop argv 256 0 { fileName := List.replicate 256 0, fileNameLength := 0 }

-- ============================================================================
-- Messages
-- ============================================================================

/-- A command: length 6, the command, no data. -/
def commandBody (cmd : UInt8) : List UInt8 := [6, 0, cmd, 0]

/-- The name message.  Its length field counts the name and the checksum. -/
def nameBody (name : ClientName) : List UInt8 :=
  leBytes (name.fileNameLength + 2) ++ name.fileName.take name.fileNameLength

/-- A data message.  Its length field counts the command, the data and the
    checksum. -/
def dataBody (chunk : List UInt8) : List UInt8 :=
  leBytes (chunk.length + 4) ++ [cmdFileDatas, 0] ++ chunk

/-- The read loop: a message for every 1024 bytes of the file. -/
def sendDatas (content : List UInt8) : Except Fault (List UInt8) :=
  if content.length = 0 then .ok []
  else do
    let message ← sealMessage (dataBody (content.take 1024))
    let rest ← sendDatas (content.drop 1024)
    .ok (message ++ rest)
termination_by content.length
decreasing_by
  rw [List.length_drop]
  omega

/-- `send_file`: the bytes of all its `send` calls.  `content` is the local
    file, if it can be opened. -/
def sendFile (name : ClientName) (content : Option (List UInt8)) :
    Except Fault (List UInt8) := do
  let command ← sealMessage (commandBody cmdReceive)
  let nameMessage ← sealMessage (nameBody name)
  let datas ← match content with
    | none => .ok []
    | some bytes => sendDatas bytes
  let complete ← sealMessage (commandBody cmdComplete)
  .ok (command ++ nameMessage ++ datas ++ complete)

end LinuxCodeDemos.TcpFile
