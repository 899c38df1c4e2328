/-
  LinuxCodeDemos.NetUtils.Netlink

  `obtain_gateway_route`: the routes as the kernel dumps them over a netlink socket.

  - The socket is the list of datagrams that `recv` will return; behind the last one
    it blocks.  `recv` cuts a datagram off at the end of the buffer.
  - `ifName` is what `if_indextoname` leaves in the caller's buffer.
  - The two walks over headers count the bytes that are left down to zero; in the
    source they may go below, which ends the loops as well.
-/

import LinuxCodeDemos.Lib.Bytes

namespace LinuxCodeDemos.NetUtils

open Lib

def bufsize : Nat := 8192

def nlmsgError : Nat := 2
def nlmsgDone : Nat := 3
def rtmNewroute : Nat := 24
def nlmFMulti : Nat := 2

def afInet : Nat := 2
def rtTableMain : Nat := 254

def rtaDst : Nat := 1
def rtaOif : Nat := 4
def rtaGateway : Nat := 5
def rtaPrefsrc : Nat := 7

-- `sizeof(struct nlmsghdr)`, `sizeof(struct rtmsg)` and `sizeof(struct rtattr)`.
def nlmsgHdrlen : Nat := 16
def rtmsgSize : Nat := 12
def rtattrSize : Nat := 4

/-- `NLMSG_ALIGN` and `RTA_ALIGN`. -/
def align (n : Nat) : Nat := (n + 3) / 4 * 4

/-- A 32-bit word behind a pointer into `buf`. -/
def readWord (buf : List UInt8) (off : Nat) : Except Fault Nat := do
  let bytes ← loadBytes buf off 4
  .ok (le32 bytes 0)

/-- `struct route_info_s`. -/
structure RouteInfo where
  ifaceName : List Char
  gateWayStr : List Char
  gateWay : Nat
  deriving DecidableEq, Repr

/-- `inet_ntoa` of an `s_addr`. -/
def inetNtoa (addr : Nat) : List Char :=
  Nat.toDigits 10 (addr % 256) ++ '.' :: Nat.toDigits 10 (addr / 256 % 256) ++
    '.' :: Nat.toDigits 10 (addr / 65536 % 256) ++ '.' :: Nat.toDigits 10 (addr / 16777216 % 256)

-- ============================================================================
-- `parse_route_info`
-- ============================================================================

/-- The `switch` over the type of an attribute at `rta`. -/
def parseAttr (ifName : Nat → List Char) (buf : List UInt8) (rta : Nat) (info : RouteInfo) :
    Except Fault RouteInfo :=
  let rtaType := le16 buf (rta + 2)
  if rtaType = rtaOif then do
    let index ← readWord buf (rta + rtattrSize)
    .ok { info with ifaceName := ifName index }
  else if rtaType = rtaGateway then do
    let addr ← readWord buf (rta + rtattrSize)
    .ok { info with gateWayStr := inetNtoa addr, gateWay := addr }
  else if rtaType = rtaPrefsrc ∨ rtaType = rtaDst then do
    let _ ← readWord buf (rta + rtattrSize)
    .ok info
  else .ok info

/-- The loop over the attributes: from `rta` on, with `len` bytes left. -/
def parseAttrs (ifName : Nat → List Char) (buf : List UInt8) (rta len : Nat) (info : RouteInfo) :
    Except Fault RouteInfo :=
  if rtattrSize ≤ len ∧ rtattrSize ≤ le16 buf rta ∧ le16 buf rta ≤ len then do
    let info ← parseAttr ifName buf rta info
    parseAttrs ifName buf (rta + align (le16 buf rta)) (len - align (le16 buf rta)) info
  else .ok info
termination_by len
decreasing_by
  simp only [rtattrSize, align] at *
  omega

/-- `parse_route_info` on the message at `nlmsg`. -/
def parseRouteInfo (ifName : Nat → List Char) (buf : List UInt8) (nlmsg : Nat)
    (info : RouteInfo) : Except Fault RouteInfo := do
  let rtmsg := nlmsg + nlmsgHdrlen
  let rtmFamily ← load buf rtmsg
  let rtmTable ← load buf (rtmsg + 4)
  if rtmFamily.toNat ≠ afInet ∨ rtmTable.toNat ≠ rtTableMain then .ok info
  else
    parseAttrs ifName buf (rtmsg + align rtmsgSize)
      (le32 buf nlmsg - align (rtmsgSize + nlmsgHdrlen)) info

-- ============================================================================
-- `read_netlink_msg`
-- ============================================================================

/-- `NLMSG_OK` for a header at `nlmsg` with `len` bytes left. -/
def nlmsgOk (buf : List UInt8) (nlmsg len : Nat) : Prop :=
  nlmsgHdrlen ≤ len ∧ nlmsgHdrlen ≤ le32 buf nlmsg ∧ le32 buf nlmsg ≤ len

instance (buf : List UInt8) (nlmsg len : Nat) : Decidable (nlmsgOk buf nlmsg len) :=
  inferInstanceAs (Decidable (_ ∧ _))

/-- How `read_netlink_msg` ends. -/
inductive Received where
  | blocked
  | failed
  | valid (buf : List UInt8) (len : Nat)
  deriving DecidableEq, Repr

/-- `read_netlink_msg`: `validLen` bytes are already in the buffer. -/
def readNetlinkMsg (seqNum pid : Nat) :
    List (List UInt8) → List UInt8 → Nat → Except Fault Received
  | [], _, _ => .ok .blocked
  | datagram :: socket, buf, validLen => do
      let bytes := datagram.take (bufsize - validLen)
      let buf ← store buf validLen bytes
      let nlmsgType := le16 buf (validLen + 4)
      let nlmsgFlags := le16 buf (validLen + 6)
      let nlmsgSeq := le32 buf (validLen + 8)
      let nlmsgPid := le32 buf (validLen + 12)
      if ¬ nlmsgOk buf validLen bytes.length ∨ nlmsgType = nlmsgError then .ok .failed
      else if nlmsgType = nlmsgDone then .ok (.valid buf validLen)
      else if nlmsgFlags &&& nlmFMulti = 0 then .ok (.valid buf (validLen + bytes.length))
      else if nlmsgSeq ≠ seqNum ∨ nlmsgPid ≠ pid then
        readNetlinkMsg seqNum pid socket buf (validLen + bytes.length)
      else .ok (.valid buf (validLen + bytes.length))

-- ============================================================================
-- `obtain_gateway_route`
-- ============================================================================

/-- The loop over the messages: from `nlmsg` on, with `len` bytes left. -/
def parseMsgs (ifName : Nat → List Char) (buf : List UInt8) (nlmsg len : Nat) (info : RouteInfo) :
    Except Fault RouteInfo :=
  if nlmsgOk buf nlmsg len then do
    let info ← parseRouteInfo ifName buf nlmsg info
    parseMsgs ifName buf (nlmsg + align (le32 buf nlmsg)) (len - align (le32 buf nlmsg)) info
  else .ok info
termination_by len
decreasing_by
  rename_i h
  simp only [nlmsgOk, nlmsgHdrlen, align] at *
  omega

/-- A call of `obtain_gateway_route`: it does not come back, or it returns with the
    route information. -/
inductive Lookup where
  | blocked
  | returned (ret : Int) (info : RouteInfo)
  deriving DecidableEq, Repr

/-- `obtain_gateway_route`.  The request has the number 0; the answer is compared with
    the next one. -/
def obtainGatewayRoute (ifName : Nat → List Char) (pid : Nat) (socket : List (List UInt8))
    (info : RouteInfo) : Except Fault Lookup := do
  let msgSeq := 1
  match ← readNetlinkMsg msgSeq pid socket (List.replicate bufsize 0) 0 with
  | .blocked => .ok .blocked
  | .failed => .ok (.returned (-1) info)
  | .valid buf len => do
      let info ← parseMsgs ifName buf 0 len info
      .ok (.returned 0 info)

end LinuxCodeDemos.NetUtils
