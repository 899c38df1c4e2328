/-
  LinuxCodeDemos.NetUtils.Gateway

  One routing table, shown to both lookups.

  A `Table` is a main IPv4 table with exactly one default route, which has a gateway.
  A `Dump` is the kernel's answer on the netlink socket: the routes, one message each,
  in datagrams of any number of messages, and `NLMSG_DONE` at the end, in the last
  datagram or in one of its own.  `procText` is the same table in `/proc/net/route`.

  `obtain_gateway_proc` finds the gateway of the default route (`procText_gateway`).
  `obtain_gateway_route` keeps the gateway of the last message that has one, and it
  comes back only if `NLMSG_DONE` is the first message of its datagram
  (`obtainGatewayRoute_eq`).
-/

import LinuxCodeDemos.NetUtils.Netlink
import LinuxCodeDemos.NetUtils.ProcRoute

namespace LinuxCodeDemos.NetUtils

open Lib

-- ============================================================================
-- Routes and their two forms
-- ============================================================================

/-- A route of the main table.  `columns` is what follows the gateway in its line of
    `/proc/net/route`. -/
structure Route where
  iface : List Char
  dst : UInt32
  gateway : Option UInt32
  oif : Option UInt32
  dstLen : UInt8
  srcLen : UInt8
  tos : UInt8
  protocol : UInt8
  scope : UInt8
  kind : UInt8
  rtmFlags : UInt32
  columns : List Char
  ifaceName : ∀ c ∈ iface, isspace c = false ∧ c ≠ '\x00'
  oneLine : '\n' ∉ columns
  fitsLine : iface.length + columns.length ≤ 235

inductive Attr where
  | dst (addr : UInt32)
  | gateway (addr : UInt32)
  | oif (index : UInt32)
  deriving DecidableEq, Repr

def Attr.code : Attr → Nat
  | .dst _ => rtaDst
  | .gateway _ => rtaGateway
  | .oif _ => rtaOif

def Attr.value : Attr → UInt32
  | .dst addr => addr
  | .gateway addr => addr
  | .oif index => index

/-- A `struct rtattr` with four bytes of data. -/
def Attr.bytes (a : Attr) : List UInt8 :=
  bytes16 8 ++ bytes16 a.code ++ bytes32 a.value.toNat

/-- The attributes of a route's message. -/
def Route.attrs (r : Route) : List Attr :=
  (if r.dstLen = 0 then [] else [.dst r.dst]) ++ r.gateway.toList.map .gateway
    ++ r.oif.toList.map .oif

/-- A `struct nlmsghdr` of the answer to request 0. -/
def nlmsghdr (portId len type : Nat) : List UInt8 :=
  bytes32 len ++ bytes16 type ++ bytes16 nlmFMulti ++ bytes32 0 ++ bytes32 portId

/-- A `struct rtmsg` of an IPv4 route in the main table. -/
def Route.rtmsg (r : Route) : List UInt8 :=
  [UInt8.ofNat afInet, r.dstLen, r.srcLen, r.tos, UInt8.ofNat rtTableMain, r.protocol, r.scope,
    r.kind] ++ bytes32 r.rtmFlags.toNat

/-- The message of a route. -/
def Route.message (portId : Nat) (r : Route) : List UInt8 :=
  nlmsghdr portId (28 + 8 * r.attrs.length) rtmNewroute ++ r.rtmsg ++ r.attrs.flatMap Attr.bytes

/-- The message at the end of a dump. -/
def doneMessage (portId : Nat) : List UInt8 := nlmsghdr portId 20 nlmsgDone ++ bytes32 0

/-- The line of a route in `/proc/net/route`. -/
def Route.line (r : Route) : List Char :=
  r.iface ++ '\t' :: (hex8 r.dst.toNat ++ '\t' :: (hex8 (r.gateway.getD 0).toNat
    ++ '\t' :: r.columns))

/-- A main IPv4 routing table with exactly one default route, which has a gateway. -/
structure Table where
  routes : List Route
  default : Route
  gateway : UInt32
  oneDefault : routes.filter (fun r => r.dst = 0) = [default]
  hasGateway : default.gateway = some gateway

/-- `/proc/net/route`, with a line of headings. -/
def procText (heading : List Char) (routes : List Route) : List Char :=
  heading ++ '\n' :: routes.flatMap fun r => r.line ++ ['\n']

/-- The messages of some routes. -/
def messages (portId : Nat) (routes : List Route) : List UInt8 :=
  routes.flatMap (Route.message portId)

/-- The dump of a list of routes. -/
structure Dump (routes : List Route) where
  portId : Nat
  groups : List (List Route)
  ownDatagram : Bool
  port : portId < 2 ^ 32
  nonempty : ∀ g ∈ groups, g ≠ []
  complete : groups.flatten = routes
  fits : (messages portId routes).length + 20 ≤ bufsize

/-- The datagrams of a dump. -/
def Dump.socket {routes : List Route} (d : Dump routes) : List (List UInt8) :=
  if d.ownDatagram then d.groups.map (messages d.portId) ++ [doneMessage d.portId]
  else
    d.groups.dropLast.map (messages d.portId)
      ++ [messages d.portId (d.groups.getLast?.getD []) ++ doneMessage d.portId]

-- ============================================================================
-- `/proc/net/route`
-- ============================================================================

section Proc

theorem hex8_plain {n : Nat} {c : Char} (h : c ∈ hex8 n) : isspace c = false ∧ c ≠ '\x00' := by
  obtain ⟨i, _, rfl⟩ := List.mem_map.mp h
  exact (hexDigit_plain _ (Nat.mod_lt _ (by omega))).1

/-- The two numbers of a line. -/
theorem scanLine_line (r : Route) :
    scanLine (r.line ++ ['\n']) = some (r.dst.toNat, (r.gateway.getD 0).toNat) := by
  have hstring : ∃ rest, (r.line ++ ['\n']).takeWhile (· ≠ '\x00') =
      r.iface ++ '\t' :: (hex8 r.dst.toNat ++ '\t' :: (hex8 (r.gateway.getD 0).toNat
        ++ '\t' :: rest)) := by
    refine ⟨(r.columns ++ ['\n']).takeWhile (· ≠ '\x00'), ?_⟩
    have hkeep : ∀ {text rest : List Char}, (∀ c ∈ text, c ≠ '\x00') →
        (text ++ '\t' :: rest).takeWhile (· ≠ '\x00')
          = text ++ '\t' :: rest.takeWhile (· ≠ '\x00') := by
      intro text rest htext
      rw [List.takeWhile_append_of_pos (fun c hc => decide_eq_true (htext c hc)),
        List.takeWhile_cons_of_pos (by decide)]
    rw [Route.line, List.append_assoc, List.cons_append, List.append_assoc, List.cons_append,
      List.append_assoc, List.cons_append, hkeep (fun c hc => (r.ifaceName c hc).2),
      hkeep (fun c hc => (hex8_plain hc).2), hkeep (fun c hc => (hex8_plain hc).2)]
  obtain ⟨rest, hstring⟩ := hstring
  have hword : ∀ tail, (r.iface ++ '\t' :: tail).dropWhile (fun c => ¬ isspace c) = '\t' :: tail := by
    intro tail
    rw [List.dropWhile_append_of_pos, List.dropWhile_cons_of_neg (by decide)]
    intro c hc
    rw [(r.ifaceName c hc).1]
    rfl
  have hspace : ∀ tail, ('\t' :: (hex8 r.dst.toNat ++ tail)).dropWhile isspace
      = hex8 r.dst.toNat ++ tail := by
    intro tail
    rw [List.dropWhile_cons_of_pos (by decide)]
    show (hexDigit _ :: _).dropWhile isspace = _
    rw [List.dropWhile_cons_of_neg]
    · rfl
    · rw [(hexDigit_plain _ (Nat.mod_lt _ (by omega))).1.1]
      exact Bool.false_ne_true
  have hdst := scanLx_hex8 r.dst.toNat_lt (show isxdigit '\t' = false by decide)
    (List.forall_mem_nil _) (hex8 (r.gateway.getD 0).toNat ++ '\t' :: rest)
  have hgw := scanLx_hex8 (r.gateway.getD 0).toNat_lt (show isxdigit '\t' = false by decide)
    (List.forall_mem_singleton.mpr (show isspace '\t' = true by decide)) rest
  rw [List.nil_append] at hdst
  rw [List.singleton_append, List.cons_append] at hgw
  simp only [scanLine, hstring, hword, hspace, hdst, hgw, Option.bind_eq_bind, Option.bind_some]

theorem scanRoutes_line {line : Nat} (hline : 0 < line) (r : Route) (rest : List Char) :
    scanRoutes line (r.line ++ ['\n'] ++ rest) =
      if r.dst = 0 then some (r.gateway.getD 0).toNat else scanRoutes (line + 1) rest := by
  have hnl : '\n' ∉ r.line := by
    intro hmem
    have hspace : isspace '\n' = true := by decide
    rw [Route.line, List.mem_append, List.mem_cons, List.mem_append, List.mem_cons,
      List.mem_append, List.mem_cons] at hmem
    rcases hmem with h | h | h | h | h | h | h
    · rw [(r.ifaceName _ h).1] at hspace
      cases hspace
    · exact absurd h (by decide)
    · rw [(hex8_plain h).1] at hspace
      cases hspace
    · exact absurd h (by decide)
    · rw [(hex8_plain h).1] at hspace
      cases hspace
    · exact absurd h (by decide)
    · exact r.oneLine h
  have hlen : r.line.length + 2 ≤ 256 := by
    have hfits := r.fitsLine
    simp only [Route.line, List.length_append, List.length_cons, hex8, List.length_map,
      List.length_nil]
    omega
  have hgets : fgets 256 (r.line ++ ['\n'] ++ rest) = (r.line ++ ['\n'], rest) := by
    rw [List.append_assoc]
    exact fgets_line hnl hlen rest
  have hne : r.line ++ ['\n'] ++ rest ≠ [] := by
    rw [List.append_assoc]
    exact List.append_ne_nil_of_right_ne_nil _ (List.cons_ne_nil _ _)
  rw [scanRoutes, if_neg hne, if_pos hline, hgets, scanLine_line]
  by_cases hdst : r.dst = 0
  · have hgw := (r.gateway.getD 0).toNat_lt
    rw [if_pos hdst, hdst]
    show some ((r.gateway.getD 0).toNat % 2 ^ 32) = _
    rw [Nat.mod_eq_of_lt hgw]
  · have hpos : r.dst.toNat ≠ 0 := by
      intro h
      exact hdst (UInt32.toNat_inj.mp h)
    rw [if_neg hdst]
    obtain ⟨n, hn⟩ := Nat.exists_eq_succ_of_ne_zero hpos
    rw [hn]
    rfl

/-- The first route with destination 0 is found. -/
theorem scanRoutes_lines {line : Nat} (hline : 0 < line) (routes : List Route) :
    scanRoutes line (routes.flatMap fun r => r.line ++ ['\n'])
      = (routes.find? fun r => r.dst = 0).map fun r => (r.gateway.getD 0).toNat := by
  induction routes generalizing line with
  | nil =>
      rw [List.flatMap_nil, scanRoutes, if_pos rfl]
      rfl
  | cons r routes ih =>
      rw [List.flatMap_cons, scanRoutes_line hline, List.find?_cons]
      by_cases hdst : r.dst = 0
      · rw [if_pos hdst]
        simp only [hdst, decide_true, Option.map_some]
      · rw [if_neg hdst, ih (Nat.succ_pos line)]
        simp only [hdst, decide_false]

/-- `obtain_gateway_proc` finds the gateway of the default route. -/
theorem procText_gateway (t : Table) {heading : List Char}
    (hheading : '\n' ∉ heading ∧ heading.length ≤ 254) :
    obtainGatewayProc (procText heading t.routes) = some t.gateway.toNat := by
  have hgets : fgets 256 (procText heading t.routes)
      = (heading ++ ['\n'], t.routes.flatMap fun r => r.line ++ ['\n']) :=
    fgets_line hheading.1 (by omega) _
  have hne : procText heading t.routes ≠ [] :=
    List.append_ne_nil_of_right_ne_nil _ (List.cons_ne_nil _ _)
  have hfind : (t.routes.find? fun r => r.dst = 0) = some t.default := by
    rw [← List.head?_filter, t.oneDefault]
    rfl
  rw [obtainGatewayProc, scanRoutes, if_neg hne, if_neg (Nat.lt_irrefl 0), hgets,
    scanRoutes_lines (Nat.succ_pos 0), hfind, Option.map_some, t.hasGateway, Option.getD_some]

end Proc

-- ============================================================================
-- The netlink dump
-- ============================================================================

/-- What an attribute does to the route information. -/
def Attr.apply (ifName : Nat → List Char) (info : RouteInfo) : Attr → RouteInfo
  | .dst _ => info
  | .gateway addr => { info with gateWayStr := inetNtoa addr.toNat, gateWay := addr.toNat }
  | .oif index => { info with ifaceName := ifName index.toNat }

/-- What a message does to the route information. -/
def Route.apply (ifName : Nat → List Char) (info : RouteInfo) (r : Route) : RouteInfo :=
  r.attrs.foldl (Attr.apply ifName) info

section Messages

variable {ifName : Nat → List Char} {buf rest : List UInt8} {info : RouteInfo}

theorem Attr.code_lt (a : Attr) : a.code < 2 ^ 16 := by
  cases a with
  | dst addr => exact (by decide : rtaDst < 2 ^ 16)
  | gateway addr => exact (by decide : rtaGateway < 2 ^ 16)
  | oif index => exact (by decide : rtaOif < 2 ^ 16)

theorem Attr.length_bytes (a : Attr) : a.bytes.length = 8 := rfl

theorem readWord_of_drop {off n : Nat} (h : buf.drop off = bytes32 n ++ rest) (hn : n < 2 ^ 32) :
    readWord buf off = .ok n := by
  have hlen : off + 4 ≤ buf.length := by
    have hlen := congrArg List.length h
    rw [List.length_drop, List.length_append, show (bytes32 n).length = 4 from rfl] at hlen
    omega
  rw [readWord, loadBytes_of_le hlen, h, List.take_left' (show (bytes32 n).length = 4 from rfl)]
  have hword := le32_bytes32 hn []
  rw [List.append_nil] at hword
  show Except.ok (le32 (bytes32 n) 0) = _
  rw [hword]

/-- The three words of an attribute. -/
theorem attr_words {rta : Nat} (a : Attr) (h : buf.drop rta = a.bytes ++ rest) :
    le16 buf rta = 8 ∧ le16 buf (rta + 2) = a.code ∧
      le32 buf (rta + rtattrSize) = a.value.toNat := by
  rw [Attr.bytes, List.append_assoc, List.append_assoc] at h
  refine ⟨?_, ?_, ?_⟩
  · have hlen := le16_of_drop h 0
    rw [Nat.add_zero] at hlen
    rw [hlen]
    exact le16_bytes16 (by decide) _
  · rw [le16_of_drop h]
    show le16 (bytes16 8 ++ _) ((bytes16 8).length + 0) = _
    rw [le16_append_right]
    exact le16_bytes16 a.code_lt _
  · rw [le32_of_drop h, ← List.append_assoc]
    show le32 (bytes16 8 ++ bytes16 a.code ++ _) ((bytes16 8 ++ bytes16 a.code).length + 0) = _
    rw [le32_append_right]
    exact le32_bytes32 a.value.toNat_lt _

theorem parseAttr_eq {rta : Nat} (a : Attr) (h : buf.drop rta = a.bytes ++ rest) :
    parseAttr ifName buf rta info = .ok (a.apply ifName info) := by
  obtain ⟨-, htype, -⟩ := attr_words a h
  have hdata : buf.drop (rta + rtattrSize) = bytes32 a.value.toNat ++ rest := by
    rw [← List.drop_drop, h]
    rfl
  have hword := readWord_of_drop hdata a.value.toNat_lt
  simp only [parseAttr, htype]
  cases a with
  | dst addr =>
      simp only [hword, Except.bind, bind]
      rfl
  | gateway addr =>
      simp only [hword, Except.bind, bind]
      rfl
  | oif index =>
      simp only [hword, Except.bind, bind]
      rfl

theorem not_rtaOk_nil {rta len : Nat} (hlen : len = 8 * ([] : List Attr).length) :
    ¬ (rtattrSize ≤ len ∧ rtattrSize ≤ le16 buf rta ∧ le16 buf rta ≤ len) := by
  rw [hlen, rtattrSize]
  exact fun hok => absurd hok.1 (by decide)

/-- The first of some attributes, and what is behind it. -/
theorem attrs_cons {rta len : Nat} {a : Attr} {attrs : List Attr}
    (h : buf.drop rta = (a :: attrs).flatMap Attr.bytes ++ rest)
    (hlen : len = 8 * (a :: attrs).length) :
    (rtattrSize ≤ len ∧ rtattrSize ≤ le16 buf rta ∧ le16 buf rta ≤ len) ∧
      buf.drop rta = a.bytes ++ (attrs.flatMap Attr.bytes ++ rest) ∧
      buf.drop (rta + align (le16 buf rta)) = attrs.flatMap Attr.bytes ++ rest ∧
      len - align (le16 buf rta) = 8 * attrs.length := by
  rw [List.flatMap_cons, List.append_assoc] at h
  rw [List.length_cons] at hlen
  have hsize := (attr_words a h).1
  have hok : rtattrSize ≤ len ∧ rtattrSize ≤ le16 buf rta ∧ le16 buf rta ≤ len := by
    rw [hsize, hlen, rtattrSize]
    omega
  refine ⟨hok, h, ?_, ?_⟩
  · rw [hsize, ← List.drop_drop, h]
    exact List.drop_left' a.length_bytes
  · rw [hsize, hlen, align]
    omega

theorem parseAttrs_eq {rta len : Nat} {attrs : List Attr}
    (h : buf.drop rta = attrs.flatMap Attr.bytes ++ rest) (hlen : len = 8 * attrs.length) :
    parseAttrs ifName buf rta len info = .ok (attrs.foldl (Attr.apply ifName) info) := by
  induction attrs generalizing rta len info with
  | nil =>
      rw [parseAttrs, if_neg (not_rtaOk_nil hlen)]
      rfl
  | cons a attrs ih =>
      obtain ⟨hok, hfirst, hnext, hrest⟩ := attrs_cons h hlen
      rw [parseAttrs, if_pos hok, parseAttr_eq a hfirst]
      exact ih hnext hrest

theorem length_attrs (attrs : List Attr) :
    (attrs.flatMap Attr.bytes).length = 8 * attrs.length := by
  induction attrs with
  | nil => rfl
  | cons a attrs ih =>
      rw [List.flatMap_cons, List.length_append, ih, a.length_bytes, List.length_cons]
      omega

theorem Route.length_attrs_le (r : Route) : r.attrs.length ≤ 3 := by
  have hdst : (if r.dstLen = 0 then [] else [Attr.dst r.dst]).length ≤ 1 := by
    split
    · exact Nat.zero_le _
    · exact Nat.le_refl 1
  have hgateway : r.gateway.toList.length ≤ 1 := by
    cases r.gateway with
    | none => exact Nat.zero_le _
    | some addr => exact Nat.le_refl 1
  have hoif : r.oif.toList.length ≤ 1 := by
    cases r.oif with
    | none => exact Nat.zero_le _
    | some index => exact Nat.le_refl 1
  simp only [Route.attrs, List.length_append, List.length_map]
  omega

variable {portId : Nat}

theorem Route.length_message (r : Route) :
    (r.message portId).length = 28 + 8 * r.attrs.length := by
  rw [Route.message, List.length_append, length_attrs]
  rfl

/-- The four words of a message's header. -/
theorem header_words (hport : portId < 2 ^ 32) {off len type : Nat} (hlen : len < 2 ^ 32)
    (htype : type < 2 ^ 16) (h : buf.drop off = nlmsghdr portId len type ++ rest) :
    le32 buf off = len ∧ le16 buf (off + 4) = type ∧ le16 buf (off + 6) = nlmFMulti ∧
      le32 buf (off + 8) = 0 ∧ le32 buf (off + 12) = portId := by
  simp only [nlmsghdr, List.append_assoc] at h
  have h₀ := le32_of_drop h 0
  rw [Nat.add_zero, le32_bytes32 hlen] at h₀
  refine ⟨h₀, ?_, ?_, ?_, ?_⟩
  · rw [le16_of_drop h]
    show le16 (bytes32 len ++ _) ((bytes32 len).length + 0) = _
    rw [le16_append_right, le16_bytes16 htype]
  · rw [le16_of_drop h, ← List.append_assoc]
    show le16 ((bytes32 len ++ bytes16 type) ++ _) ((bytes32 len ++ bytes16 type).length + 0) = _
    rw [le16_append_right, le16_bytes16 (by decide)]
  · rw [le32_of_drop h, ← List.append_assoc, ← List.append_assoc]
    show le32 ((bytes32 len ++ bytes16 type ++ bytes16 nlmFMulti) ++ _)
      ((bytes32 len ++ bytes16 type ++ bytes16 nlmFMulti).length + 0) = _
    rw [le32_append_right, le32_bytes32 (by decide)]
  · rw [le32_of_drop h, ← List.append_assoc, ← List.append_assoc, ← List.append_assoc]
    show le32 ((bytes32 len ++ bytes16 type ++ bytes16 nlmFMulti ++ bytes32 0) ++ _)
      ((bytes32 len ++ bytes16 type ++ bytes16 nlmFMulti ++ bytes32 0).length + 0) = _
    rw [le32_append_right, le32_bytes32 hport]

theorem le32_message (hport : portId < 2 ^ 32) {off : Nat} (r : Route)
    (h : buf.drop off = r.message portId ++ rest) :
    le32 buf off = 28 + 8 * r.attrs.length := by
  have hattrs := r.length_attrs_le
  rw [Route.message, List.append_assoc, List.append_assoc] at h
  exact (header_words hport (by omega) (by decide) h).1

/-- Where a message says its family and its table, and where its attributes stand. -/
theorem message_fields {off : Nat} (r : Route) (h : buf.drop off = r.message portId ++ rest) :
    load buf (off + nlmsgHdrlen) = .ok (UInt8.ofNat afInet) ∧
      load buf (off + nlmsgHdrlen + 4) = .ok (UInt8.ofNat rtTableMain) ∧
      buf.drop (off + nlmsgHdrlen + align rtmsgSize) = r.attrs.flatMap Attr.bytes ++ rest := by
  rw [Route.message, List.append_assoc, List.append_assoc] at h
  have hfamily : load buf (off + nlmsgHdrlen) = .ok (UInt8.ofNat afInet) :=
    load_of_drop (nlmsghdr portId (28 + 8 * r.attrs.length) rtmNewroute) h
  have htable : load buf (off + nlmsgHdrlen + 4) = .ok (UInt8.ofNat rtTableMain) :=
    load_of_drop (nlmsghdr portId (28 + 8 * r.attrs.length) rtmNewroute
      ++ [UInt8.ofNat afInet, r.dstLen, r.srcLen, r.tos]) (h.trans (List.append_assoc ..).symm)
  refine ⟨hfamily, htable, ?_⟩
  rw [Nat.add_assoc, ← List.drop_drop, h, ← List.append_assoc]
  rfl

theorem parseRouteInfo_eq (hport : portId < 2 ^ 32) {off : Nat} (r : Route)
    (h : buf.drop off = r.message portId ++ rest) :
    parseRouteInfo ifName buf off info = .ok (r.apply ifName info) := by
  have hlen := le32_message hport r h
  obtain ⟨hfamily, htable, hattrs⟩ := message_fields r h
  rw [parseRouteInfo]
  simp only [hfamily, htable, Except.bind, bind, hlen]
  exact parseAttrs_eq hattrs (by simp only [align, rtmsgSize, nlmsgHdrlen]; omega)

theorem not_nlmsgOk_nil {nlmsg len : Nat} (hlen : len = (messages portId []).length) :
    ¬ nlmsgOk buf nlmsg len := by
  rw [hlen, nlmsgOk, nlmsgHdrlen, show (messages portId []).length = 0 from rfl]
  omega

/-- The first message of a dump, and what is behind it. -/
theorem messages_cons (hport : portId < 2 ^ 32) {nlmsg len : Nat} {r : Route}
    {routes : List Route} (h : buf.drop nlmsg = messages portId (r :: routes) ++ rest)
    (hlen : len = (messages portId (r :: routes)).length) :
    nlmsgOk buf nlmsg len ∧
      buf.drop nlmsg = r.message portId ++ (messages portId routes ++ rest) ∧
      buf.drop (nlmsg + align (le32 buf nlmsg)) = messages portId routes ++ rest ∧
      len - align (le32 buf nlmsg) = (messages portId routes).length := by
  rw [messages, List.flatMap_cons, List.append_assoc] at h
  rw [messages, List.flatMap_cons, List.length_append, r.length_message] at hlen
  have hsize := le32_message hport r h
  have halign : align (28 + 8 * r.attrs.length) = 28 + 8 * r.attrs.length := by
    rw [align]
    omega
  have hok : nlmsgOk buf nlmsg len := by
    rw [nlmsgOk, hsize, hlen, nlmsgHdrlen]
    omega
  refine ⟨hok, h, ?_, ?_⟩
  · rw [hsize, halign, ← List.drop_drop, h, List.drop_left' r.length_message]
    rfl
  · rw [hsize, halign, hlen, messages]
    omega

theorem parseMsgs_eq (hport : portId < 2 ^ 32) {nlmsg len : Nat} {routes : List Route}
    (h : buf.drop nlmsg = messages portId routes ++ rest)
    (hlen : len = (messages portId routes).length) :
    parseMsgs ifName buf nlmsg len info = .ok (routes.foldl (Route.apply ifName) info) := by
  induction routes generalizing nlmsg len info with
  | nil =>
      rw [parseMsgs, if_neg (not_nlmsgOk_nil hlen)]
      rfl
  | cons r routes ih =>
      obtain ⟨hok, hfirst, hnext, hrest⟩ := messages_cons hport h hlen
      rw [parseMsgs, if_pos hok, parseRouteInfo_eq hport r hfirst]
      exact ih hnext hrest

end Messages

section Reading

variable {portId pid validLen : Nat} {buf : List UInt8} {socket : List (List UInt8)}

/-- A datagram that begins with a route is put behind the ones before, and the loop goes on. -/
theorem readNetlinkMsg_routes (hport : portId < 2 ^ 32) (hbuf : buf.length = bufsize)
    {g : List Route} (hg : g ≠ []) (tail : List UInt8)
    (hfit : validLen + (messages portId g ++ tail).length ≤ bufsize) :
    readNetlinkMsg 1 pid ((messages portId g ++ tail) :: socket) buf validLen =
      readNetlinkMsg 1 pid socket (splice buf validLen (messages portId g ++ tail))
        (validLen + (messages portId g ++ tail).length) := by
  obtain ⟨r, g, rfl⟩ := List.exists_cons_of_ne_nil hg
  have hattrs := r.length_attrs_le
  have hdrop : (splice buf validLen (messages portId (r :: g) ++ tail)).drop validLen
      = nlmsghdr portId (28 + 8 * r.attrs.length) rtmNewroute ++ (r.rtmsg
          ++ r.attrs.flatMap Attr.bytes ++ messages portId g ++ tail
          ++ buf.drop (validLen + (messages portId (r :: g) ++ tail).length)) := by
    rw [splice, List.drop_left' (by rw [List.length_take]; omega), messages, List.flatMap_cons,
      Route.message]
    simp only [List.append_assoc]
    rfl
  obtain ⟨hlen, htype, hflags, hseq, _⟩ := header_words hport (by omega) (by decide) hdrop
  have hsize : 28 + 8 * r.attrs.length ≤ (messages portId (r :: g) ++ tail).length := by
    rw [messages, List.flatMap_cons, List.length_append, List.length_append, r.length_message]
    omega
  have hok : nlmsgOk (splice buf validLen (messages portId (r :: g) ++ tail)) validLen
      (messages portId (r :: g) ++ tail).length := by
    rw [nlmsgOk, hlen, nlmsgHdrlen]
    omega
  rw [readNetlinkMsg, List.take_of_length_le (by omega), store_of_le (by omega)]
  simp only [Except.bind, bind, htype, hflags, hseq]
  rw [if_neg (not_or.mpr ⟨not_not.mpr hok, by decide⟩), if_neg (by decide), if_neg (by decide),
    if_pos (.inl (by decide))]

/-- `NLMSG_DONE` at the start of a datagram ends the loop. -/
theorem readNetlinkMsg_done (hport : portId < 2 ^ 32) (hbuf : buf.length = bufsize)
    (hfit : validLen + 20 ≤ bufsize) :
    readNetlinkMsg 1 pid (doneMessage portId :: socket) buf validLen =
      .ok (.valid (splice buf validLen (doneMessage portId)) validLen) := by
  have hsize : (doneMessage portId).length = 20 := rfl
  have hdrop : (splice buf validLen (doneMessage portId)).drop validLen
      = nlmsghdr portId 20 nlmsgDone ++ (bytes32 0
          ++ buf.drop (validLen + (doneMessage portId).length)) := by
    rw [splice, List.drop_left' (by rw [List.length_take]; omega), doneMessage, List.append_assoc]
  obtain ⟨hlen, htype, _, _, _⟩ := header_words hport (by decide) (by decide) hdrop
  have hok : nlmsgOk (splice buf validLen (doneMessage portId)) validLen
      (doneMessage portId).length := by
    rw [nlmsgOk, hlen, hsize, nlmsgHdrlen]
    omega
  rw [readNetlinkMsg, List.take_of_length_le (by omega), store_of_le (by omega)]
  simp only [Except.bind, bind, htype]
  rw [if_neg (not_or.mpr ⟨not_not.mpr hok, by decide⟩), if_pos trivial]

theorem take_splice {α : Type} {dst src : List α} {off : Nat} (h : off + src.length ≤ dst.length) :
    (splice dst off src).take (off + src.length) = dst.take off ++ src := by
  rw [splice, ← List.append_assoc, List.take_left' (by
    rw [List.length_append, List.length_take]
    omega)]

/-- All datagrams of routes are read, one behind the other. -/
theorem readNetlinkMsg_groups (hport : portId < 2 ^ 32) {groups : List (List Route)}
    (hgroups : ∀ g ∈ groups, g ≠ []) {buf : List UInt8} {validLen : Nat}
    (hbuf : buf.length = bufsize)
    (hfit : validLen + (messages portId groups.flatten).length ≤ bufsize) :
    ∃ buf', buf'.length = bufsize ∧
      buf'.take (validLen + (messages portId groups.flatten).length)
        = buf.take validLen ++ messages portId groups.flatten ∧
      readNetlinkMsg 1 pid (groups.map (messages portId) ++ socket) buf validLen =
        readNetlinkMsg 1 pid socket buf'
          (validLen + (messages portId groups.flatten).length) := by
  induction groups generalizing buf validLen with
  | nil => exact ⟨buf, hbuf, (List.append_nil _).symm, rfl⟩
  | cons g groups ih =>
      have hsplit : messages portId (g :: groups).flatten
          = messages portId g ++ messages portId groups.flatten := by
        rw [List.flatten_cons, messages, List.flatMap_append]
        rfl
      rw [hsplit, List.length_append] at hfit
      have hone := @readNetlinkMsg_routes portId pid validLen buf
        (groups.map (messages portId) ++ socket) hport hbuf g (hgroups g (List.mem_cons_self ..)) []
        (by rw [List.append_nil]; omega)
      rw [List.append_nil] at hone
      have hlen : (splice buf validLen (messages portId g)).length = bufsize := by
        rw [splice_length (by omega), hbuf]
      have hrestFits : validLen + (messages portId g).length
          + (messages portId groups.flatten).length ≤ bufsize := by
        omega
      obtain ⟨buf', hbuf', htake, hrest⟩ :=
        ih (fun g' hg' => hgroups g' (List.mem_cons_of_mem _ hg')) hlen hrestFits
      refine ⟨buf', hbuf', ?_, ?_⟩
      · rw [hsplit, List.length_append, ← Nat.add_assoc, htake, take_splice (by omega),
          List.append_assoc]
      · rw [List.map_cons, List.cons_append, hone, hrest, hsplit, List.length_append,
          Nat.add_assoc]

end Reading

-- ============================================================================
-- Both lookups on one table
-- ============================================================================

/-- The gateway of the last route that has one. -/
def lastGateway (routes : List Route) : Option UInt32 := (routes.filterMap Route.gateway).getLast?

section Lookups

variable {ifName : Nat → List Char} {info : RouteInfo}

theorem Route.gateWay_apply (r : Route) :
    (r.apply ifName info).gateWay = (r.gateway.map UInt32.toNat).getD info.gateWay := by
  rw [Route.apply, Route.attrs]
  split <;> cases r.gateway <;> cases r.oif <;> rfl

/-- Every message with a gateway overwrites the one before. -/
theorem gateWay_foldl (routes : List Route) :
    (routes.foldl (Route.apply ifName) info).gateWay
      = ((lastGateway routes).map UInt32.toNat).getD info.gateWay := by
  induction routes generalizing info with
  | nil => rfl
  | cons r routes ih =>
      rw [List.foldl_cons, ih, r.gateWay_apply, lastGateway, lastGateway]
      cases hgw : r.gateway with
      | none => rw [List.filterMap_cons_none hgw, Option.map_none, Option.getD_none]
      | some addr =>
          rw [List.filterMap_cons_some hgw, List.getLast?_cons]
          cases (routes.filterMap Route.gateway).getLast? with
          | none => rfl
          | some last => rfl

/-- A dump with `NLMSG_DONE` in a datagram of its own is received whole. -/
theorem Dump.read_ownDatagram {routes : List Route} (d : Dump routes) (hown : d.ownDatagram = true)
    (pid : Nat) :
    ∃ buf rest, buf.drop 0 = messages d.portId routes ++ rest ∧
      readNetlinkMsg 1 pid d.socket (List.replicate bufsize 0) 0
        = .ok (.valid buf (messages d.portId routes).length) := by
  have hfits := d.fits
  have hall : 0 + (messages d.portId d.groups.flatten).length ≤ bufsize := by
    rw [d.complete]
    omega
  obtain ⟨buf, hbuf, htake, hread⟩ :=
    @readNetlinkMsg_groups d.portId pid [doneMessage d.portId] d.port d.groups d.nonempty _ _
      (@List.length_replicate _ bufsize (0 : UInt8)) hall
  rw [Nat.zero_add, d.complete] at hread
  rw [Nat.zero_add, d.complete, List.take_zero, List.nil_append] at htake
  refine ⟨splice buf (messages d.portId routes).length (doneMessage d.portId),
    doneMessage d.portId
      ++ buf.drop ((messages d.portId routes).length + (doneMessage d.portId).length), ?_, ?_⟩
  · rw [List.drop_zero, splice, htake]
  · rw [Dump.socket, if_pos hown, hread, readNetlinkMsg_done d.port hbuf hfits]

/-- `obtain_gateway_route` on a dump: it needs `NLMSG_DONE` in a datagram of its own, and then
    every message overwrites what the ones before it left. -/
theorem obtainGatewayRoute_eq {routes : List Route} (hroutes : routes ≠ []) (d : Dump routes)
    (pid : Nat) :
    obtainGatewayRoute ifName pid d.socket info =
      if d.ownDatagram then .ok (.returned 0 (routes.foldl (Route.apply ifName) info))
      else .ok .blocked := by
  have hfits := d.fits
  have hempty : (List.replicate bufsize (0 : UInt8)).length = bufsize := List.length_replicate
  rw [obtainGatewayRoute]
  split
  · next hown =>
    obtain ⟨buf, rest, hsplit, hread⟩ := d.read_ownDatagram hown pid
    rw [hread]
    show (parseMsgs _ _ _ _ _ >>= _) = _
    rw [parseMsgs_eq d.port hsplit rfl]
    rfl
  · next hown =>
    rw [Dump.socket, if_neg hown]
    have hgroups : d.groups ≠ [] := by
      intro hnil
      apply hroutes
      rw [← d.complete, hnil]
      rfl
    obtain ⟨init, last, hlast⟩ : ∃ init last, d.groups = init ++ [last] :=
      ⟨_, _, (List.dropLast_append_getLast hgroups).symm⟩
    have hinit : ∀ g ∈ init, g ≠ [] := by
      intro g hg
      exact d.nonempty g (hlast ▸ List.mem_append_left _ hg)
    have hlastNe : last ≠ [] :=
      d.nonempty last (hlast ▸ List.mem_append_right _ (List.mem_singleton_self _))
    have hlen : (messages d.portId routes).length
        = (messages d.portId init.flatten).length + (messages d.portId last).length := by
      have hsplit : routes = init.flatten ++ last := by
        rw [← d.complete, hlast, List.flatten_concat]
      rw [congrArg (messages d.portId) hsplit, messages, List.flatMap_append, List.length_append]
      rfl
    obtain ⟨buf, hbuf, _, hread⟩ :=
      @readNetlinkMsg_groups d.portId pid [messages d.portId last ++ doneMessage d.portId] d.port
        init hinit _ _ hempty (show 0 + (messages d.portId init.flatten).length ≤ bufsize by omega)
    have hfit : 0 + (messages d.portId init.flatten).length
        + (messages d.portId last ++ doneMessage d.portId).length ≤ bufsize := by
      rw [List.length_append, show (doneMessage d.portId).length = 20 from rfl]
      omega
    rw [hlast, List.dropLast_concat, List.getLast?_concat, Option.getD_some, hread,
      readNetlinkMsg_routes d.port hbuf hlastNe (doneMessage d.portId) hfit]
    rfl

/-- Both lookups return, with the same gateway. -/
def SameGateway (ifName : Nat → List Char) (pid : Nat) (info : RouteInfo)
    (socket : List (List UInt8)) (text : List Char) : Prop :=
  ∃ info' gateway, obtainGatewayRoute ifName pid socket info = .ok (.returned 0 info') ∧
    obtainGatewayProc text = some gateway ∧ info'.gateWay = gateway

/-- The two lookups agree on a table exactly if the last route with a gateway has the one of
    the default route, and the kernel puts `NLMSG_DONE` into a datagram of its own. -/
theorem sameGateway_iff (t : Table) (d : Dump t.routes) (pid : Nat) {heading : List Char}
    (hheading : '\n' ∉ heading ∧ heading.length ≤ 254) :
    SameGateway ifName pid info d.socket (procText heading t.routes) ↔
      lastGateway t.routes = some t.gateway ∧ d.ownDatagram = true := by
  have hdefault : t.default ∈ t.routes := by
    apply List.mem_of_mem_filter
    rw [t.oneDefault]
    exact List.mem_singleton_self _
  obtain ⟨last, hlast⟩ : ∃ last, lastGateway t.routes = some last := by
    have hmem : t.gateway ∈ t.routes.filterMap Route.gateway :=
      List.mem_filterMap.mpr ⟨t.default, hdefault, t.hasGateway⟩
    exact ⟨_, List.getLast?_eq_some_getLast (List.ne_nil_of_mem hmem)⟩
  rw [SameGateway, obtainGatewayRoute_eq (List.ne_nil_of_mem hdefault), procText_gateway t hheading]
  cases hown : d.ownDatagram with
  | false =>
      refine ⟨?_, ?_⟩
      · rintro ⟨info', gateway, hroute, _⟩
        cases hroute
      · rintro ⟨_, h⟩
        cases h
  | true =>
      rw [if_pos rfl]
      refine ⟨?_, ?_⟩
      · rintro ⟨info', gateway, hroute, hproc, rfl⟩
        cases hroute
        rw [gateWay_foldl, hlast, Option.map_some, Option.getD_some] at hproc
        have hsame := UInt32.toNat_inj.mp (Option.some.inj hproc)
        exact ⟨by rw [hlast, hsame], rfl⟩
      · rintro ⟨hgateway, _⟩
        refine ⟨_, _, rfl, rfl, ?_⟩
        rw [gateWay_foldl, hgateway]
        rfl

end Lookups

-- ============================================================================
-- A static route beside the default one
-- ============================================================================

/-- A route through a gateway on the first interface. -/
def viaGateway (dst gateway : UInt32) (dstLen : UInt8) : Route where
  iface := ['e', 't', 'h', '0']
  dst := dst
  gateway := some gateway
  oif := some 2
  dstLen := dstLen
  srcLen := 0
  tos := 0
  protocol := 3
  scope := 0
  kind := 1
  rtmFlags := 0
  columns := ['0', '0', '0', '3']
  ifaceName := by simp [isspace]
  oneLine := by simp
  fitsLine := by decide

/-- The default route goes through 192.168.1.1. -/
def defaultRoute : Route := viaGateway 0 0x0101a8c0 0

/-- The network 10.0.0.0 is behind 192.168.1.254. -/
def staticRoute : Route := viaGateway 0x0000000a 0xfe01a8c0 8

def defaultFirst : Table where
  routes := [defaultRoute, staticRoute]
  default := defaultRoute
  gateway := 0x0101a8c0
  oneDefault := rfl
  hasGateway := rfl

def defaultLast : Table where
  routes := [staticRoute, defaultRoute]
  default := defaultRoute
  gateway := 0x0101a8c0
  oneDefault := rfl
  hasGateway := rfl

/-- All routes in one datagram and `NLMSG_DONE` in the next. -/
def oneDatagram (routes : List Route) (hne : routes ≠ [])
    (hfits : (messages 7 routes).length + 20 ≤ bufsize) : Dump routes where
  portId := 7
  groups := [routes]
  ownDatagram := true
  port := by decide
  nonempty := List.forall_mem_singleton.mpr hne
  complete := List.append_nil routes
  fits := hfits

def defaultFirstDump : Dump defaultFirst.routes :=
  oneDatagram [defaultRoute, staticRoute] (List.cons_ne_nil _ _) (by decide)

def defaultLastDump : Dump defaultLast.routes :=
  oneDatagram [staticRoute, defaultRoute] (List.cons_ne_nil _ _) (by decide)

def noInfo : RouteInfo := { ifaceName := [], gateWayStr := [], gateWay := 0 }

def headings : List Char := ['I', 'f', 'a', 'c', 'e', '\t', 'D', 'e', 's', 't']

/-- With the default route last the lookups agree. -/
theorem sameGateway_defaultLast :
    ('\n' ∉ headings ∧ headings.length ≤ 254) ∧
    SameGateway (fun _ => []) 7 noInfo defaultLastDump.socket
      (procText headings defaultLast.routes) :=
  ⟨by decide, (sameGateway_iff defaultLast defaultLastDump 7 (by decide)).mpr ⟨by decide, rfl⟩⟩

/-- With the default route first, one finds 192.168.1.254 and the other 192.168.1.1. -/
theorem otherGateway_defaultFirst :
    (∃ info', obtainGatewayRoute (fun _ => []) 7 defaultFirstDump.socket noInfo
      = .ok (.returned 0 info') ∧ info'.gateWay = 0xfe01a8c0) ∧
    obtainGatewayProc (procText headings defaultFirst.routes) = some 0x0101a8c0 ∧
    ¬ SameGateway (fun _ => []) 7 noInfo defaultFirstDump.socket
      (procText headings defaultFirst.routes) := by
  have hroute : obtainGatewayRoute (fun _ => []) 7 defaultFirstDump.socket noInfo
      = .ok (.returned 0 (defaultFirst.routes.foldl (Route.apply fun _ => []) noInfo)) :=
    obtainGatewayRoute_eq (List.cons_ne_nil _ _) defaultFirstDump 7
  have hproc : obtainGatewayProc (procText headings defaultFirst.routes) = some 0x0101a8c0 :=
    procText_gateway defaultFirst (by decide)
  refine ⟨⟨_, hroute, rfl⟩, hproc, ?_⟩
  rintro ⟨info', gateway, hroute', hproc', hsame⟩
  rw [hroute] at hroute'
  rw [hproc] at hproc'
  cases hroute'
  cases hproc'
  exact absurd hsame (by decide)

end LinuxCodeDemos.NetUtils
