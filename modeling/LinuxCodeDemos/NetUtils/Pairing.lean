/-
  LinuxCodeDemos.NetUtils.Pairing

  Which route the result of `obtain_gateway_route` belongs to.

  `mainRoutes` are the main-table IPv4 routes that a received dump holds, each with its
  attributes in their order.  The code goes through all of these attributes and keeps the last
  output interface and the last gateway (`obtainGatewayRoute_valid`), whichever routes they are
  of.
-/

import Mathlib.Data.List.Induction
import LinuxCodeDemos.NetUtils.Gateway
import LinuxCodeDemos.Lib.Run

namespace LinuxCodeDemos.NetUtils

open Lib

-- ============================================================================
-- The routes of a dump
-- ============================================================================

/-- An attribute: where it stands, its type and the word behind its header. -/
structure Attribute where
  off : Nat
  code : Nat
  value : Nat
  deriving DecidableEq, Repr

/-- The attributes from `rta` on, with `len` bytes left. -/
def attrsAt (buf : List UInt8) (rta len : Nat) : List Attribute :=
  if rtattrSize ≤ len ∧ rtattrSize ≤ le16 buf rta ∧ le16 buf rta ≤ len then
    ⟨rta, le16 buf (rta + 2), le32 buf (rta + rtattrSize)⟩
      :: attrsAt buf (rta + align (le16 buf rta)) (len - align (le16 buf rta))
  else []
termination_by len
decreasing_by
  simp only [rtattrSize, align] at *
  omega

/-- A message: where it stands and its attributes. -/
structure Message where
  off : Nat
  attrs : List Attribute
  deriving DecidableEq, Repr

def messageAt (buf : List UInt8) (nlmsg : Nat) : Message :=
  { off := nlmsg
    attrs := attrsAt buf (nlmsg + nlmsgHdrlen + align rtmsgSize)
      (le32 buf nlmsg - align (rtmsgSize + nlmsgHdrlen)) }

/-- The messages from `nlmsg` on, with `len` bytes left. -/
def messagesAt (buf : List UInt8) (nlmsg len : Nat) : List Message :=
  if nlmsgOk buf nlmsg len then
    messageAt buf nlmsg
      :: messagesAt buf (nlmsg + align (le32 buf nlmsg)) (len - align (le32 buf nlmsg))
  else []
termination_by len
decreasing_by
  rename_i h
  simp only [nlmsgOk, nlmsgHdrlen, align] at *
  omega

/-- A message of an IPv4 route in the main table. -/
def Message.isMainRoute (buf : List UInt8) (m : Message) : Bool :=
  (buf.getD (m.off + nlmsgHdrlen) 0).toNat = afInet ∧
    (buf.getD (m.off + nlmsgHdrlen + 4) 0).toNat = rtTableMain

/-- The main-table IPv4 routes of a dump of `len` bytes. -/
def mainRoutes (buf : List UInt8) (len : Nat) : List Message :=
  (messagesAt buf 0 len).filter (Message.isMainRoute buf)

/-- An attribute of the message with this type and value. -/
def Message.Has (m : Message) (code value : Nat) : Prop :=
  ∃ a ∈ m.attrs, a.code = code ∧ a.value = value

/-- The last attribute of a type. -/
def lastOf (code : Nat) (attrs : List Attribute) : Option Nat :=
  (attrs.reverse.find? fun a => a.code = code).map (·.value)

-- ============================================================================
-- Reads inside the buffer
-- ============================================================================

/-- A word that is read lies in the buffer. -/
def Attribute.Readable (buf : List UInt8) (a : Attribute) : Prop :=
  a.code = rtaOif ∨ a.code = rtaGateway ∨ a.code = rtaPrefsrc ∨ a.code = rtaDst →
    a.off + rtattrSize + 4 ≤ buf.length

/-- The members of `struct rtmsg` and the words that are read lie in the buffer. -/
def Message.Readable (buf : List UInt8) (m : Message) : Prop :=
  m.off + nlmsgHdrlen + 4 < buf.length ∧
    (m.isMainRoute buf = true → ∀ a ∈ m.attrs, a.Readable buf)

/-- What an attribute does to the route information. -/
def Attribute.apply (ifName : Nat → List Char) (info : RouteInfo) (a : Attribute) : RouteInfo :=
  if a.code = rtaOif then { info with ifaceName := ifName a.value }
  else if a.code = rtaGateway then
    { info with gateWayStr := inetNtoa a.value, gateWay := a.value }
  else info

section Parsing

variable {ifName : Nat → List Char} {buf : List UInt8} {info info' : RouteInfo}

theorem le32_take (bytes : List UInt8) : le32 (bytes.take 4) 0 = le32 bytes 0 := by
  simp only [le32, le16, List.getD_eq_getElem?_getD, List.getElem?_take]
  rfl

/-- A word is read, and something is made of it. -/
theorem readWord_ok_iff {off : Nat} {f : Nat → RouteInfo} :
    (readWord buf off >>= fun word => .ok (f word)) = .ok info' ↔
      off + 4 ≤ buf.length ∧ f (le32 buf off) = info' := by
  rw [readWord, loadBytes]
  by_cases h : off + 4 ≤ buf.length
  · have hword : le32 ((buf.drop off).take 4) 0 = le32 buf off := by
      rw [le32_take, ← le32_of_drop rfl 0, Nat.add_zero]
    rw [if_pos (.inr h)]
    show Except.ok (f (le32 ((buf.drop off).take 4) 0)) = _ ↔ _
    rw [hword, Except.ok.injEq, and_iff_right h]
  · rw [if_neg (by omega)]
    exact iff_of_false (fun h => (by cases h)) fun hand => h hand.1

/-- An attribute is gone through if the word it needs can be read. -/
theorem parseAttr_ok_iff (rta : Nat) :
    parseAttr ifName buf rta info = .ok info' ↔
      Attribute.Readable buf ⟨rta, le16 buf (rta + 2), le32 buf (rta + rtattrSize)⟩ ∧
        Attribute.apply ifName info ⟨rta, le16 buf (rta + 2), le32 buf (rta + rtattrSize)⟩
          = info' := by
  unfold parseAttr Attribute.Readable Attribute.apply
  simp only
  by_cases hoif : le16 buf (rta + 2) = rtaOif
  · rw [if_pos hoif, if_pos hoif, readWord_ok_iff, forall_prop_of_true (.inl hoif)]
  · by_cases hgateway : le16 buf (rta + 2) = rtaGateway
    · rw [if_neg hoif, if_pos hgateway, if_neg hoif, if_pos hgateway, readWord_ok_iff,
        forall_prop_of_true (.inr (.inl hgateway))]
    · rw [if_neg hoif, if_neg hgateway, if_neg hoif, if_neg hgateway, or_iff_right hoif,
        or_iff_right hgateway]
      by_cases hother : le16 buf (rta + 2) = rtaPrefsrc ∨ le16 buf (rta + 2) = rtaDst
      · rw [if_pos hother, readWord_ok_iff, forall_prop_of_true hother]
      · rw [if_neg hother, Except.ok.injEq, forall_prop_of_false hother, true_and]

/-- The attributes of a message are gone through one after the other. -/
theorem parseAttrs_ok_iff (rta len : Nat) :
    parseAttrs ifName buf rta len info = .ok info' ↔
      (∀ a ∈ attrsAt buf rta len, a.Readable buf) ∧
        (attrsAt buf rta len).foldl (Attribute.apply ifName) info = info' := by
  fun_induction attrsAt buf rta len generalizing info with
  | case1 rta len hok ih =>
      rw [parseAttrs, if_pos hok, List.forall_mem_cons, List.foldl_cons, and_assoc]
      refine ⟨?_, ?_⟩
      · intro h
        obtain ⟨mid, hattr, hrest⟩ := exists_ok_of_bind h
        obtain ⟨hread, rfl⟩ := (parseAttr_ok_iff rta).mp hattr
        exact ⟨hread, ih.mp hrest⟩
      · rintro ⟨hread, hrest⟩
        rw [bind_of_ok ((parseAttr_ok_iff rta).mpr ⟨hread, rfl⟩)]
        exact ih.mpr hrest
  | case2 rta len hok =>
      rw [parseAttrs, if_neg hok, Except.ok.injEq]
      exact (and_iff_right (List.forall_mem_nil _)).symm

/-- What a message does to the route information. -/
def Message.apply (ifName : Nat → List Char) (buf : List UInt8) (info : RouteInfo) (m : Message) :
    RouteInfo :=
  if m.isMainRoute buf then m.attrs.foldl (Attribute.apply ifName) info else info

theorem load_ok_iff {off : Nat} {v : UInt8} :
    load buf off = .ok v ↔ off < buf.length ∧ buf.getD off 0 = v := by
  by_cases h : off < buf.length
  · rw [load_getD h 0, Except.ok.injEq, and_iff_right h]
  · rw [load, List.getElem?_eq_none (by omega)]
    exact iff_of_false (fun h => (by cases h)) fun hand => h hand.1

/-- The check of `rtm_family` and `rtm_table`, and the attributes behind it. -/
theorem parseRouteInfo_attrs (nlmsg : Nat) {family table : UInt8}
    (hfamily : buf.getD (nlmsg + nlmsgHdrlen) 0 = family)
    (htable : buf.getD (nlmsg + nlmsgHdrlen + 4) 0 = table) :
    (if family.toNat ≠ afInet ∨ table.toNat ≠ rtTableMain then Except.ok info
      else parseAttrs ifName buf (nlmsg + nlmsgHdrlen + align rtmsgSize)
        (le32 buf nlmsg - align (rtmsgSize + nlmsgHdrlen)) info) = .ok info' ↔
      ((messageAt buf nlmsg).isMainRoute buf = true →
        ∀ a ∈ (messageAt buf nlmsg).attrs, a.Readable buf) ∧
      (messageAt buf nlmsg).apply ifName buf info = info' := by
  have hmain : (messageAt buf nlmsg).isMainRoute buf = true ↔
      family.toNat = afInet ∧ table.toNat = rtTableMain := by
    rw [Message.isMainRoute, decide_eq_true_iff, ← hfamily, ← htable]
    rfl
  rw [Message.apply]
  by_cases hroute : family.toNat = afInet ∧ table.toNat = rtTableMain
  · rw [if_neg (by rw [← not_and_or]; exact not_not.mpr hroute), if_pos (hmain.mpr hroute),
      forall_prop_of_true (hmain.mpr hroute)]
    exact parseAttrs_ok_iff _ _
  · rw [if_pos (not_and_or.mp hroute), if_neg (mt hmain.mp hroute),
      forall_prop_of_false (mt hmain.mp hroute), true_and, Except.ok.injEq]

theorem parseRouteInfo_ok_iff (nlmsg : Nat) :
    parseRouteInfo ifName buf nlmsg info = .ok info' ↔
      (messageAt buf nlmsg).Readable buf ∧ (messageAt buf nlmsg).apply ifName buf info = info' := by
  rw [Message.Readable, and_assoc, parseRouteInfo]
  refine ⟨?_, ?_⟩
  · intro h
    obtain ⟨family, hfamily, h⟩ := exists_ok_of_bind h
    obtain ⟨table, htable, h⟩ := exists_ok_of_bind h
    obtain ⟨hlt, htable⟩ := load_ok_iff.mp htable
    exact ⟨hlt, (parseRouteInfo_attrs nlmsg (load_ok_iff.mp hfamily).2 htable).mp h⟩
  · rintro ⟨hlt, h⟩
    have hoff : nlmsg + nlmsgHdrlen + 4 < buf.length := hlt
    have hfamily : load buf (nlmsg + nlmsgHdrlen) = .ok (buf.getD (nlmsg + nlmsgHdrlen) 0) :=
      load_ok_iff.mpr ⟨by omega, rfl⟩
    rw [bind_of_ok hfamily, bind_of_ok (load_ok_iff.mpr ⟨hoff, rfl⟩)]
    exact (parseRouteInfo_attrs nlmsg rfl rfl).mpr h

/-- The messages are gone through one after the other. -/
theorem parseMsgs_ok_iff (nlmsg len : Nat) :
    parseMsgs ifName buf nlmsg len info = .ok info' ↔
      (∀ m ∈ messagesAt buf nlmsg len, m.Readable buf) ∧
        (messagesAt buf nlmsg len).foldl (Message.apply ifName buf) info = info' := by
  fun_induction messagesAt buf nlmsg len generalizing info with
  | case1 nlmsg len hok ih =>
      rw [parseMsgs, if_pos hok, List.forall_mem_cons, List.foldl_cons, and_assoc]
      refine ⟨?_, ?_⟩
      · intro h
        obtain ⟨mid, hmsg, hrest⟩ := exists_ok_of_bind h
        obtain ⟨hread, rfl⟩ := (parseRouteInfo_ok_iff nlmsg).mp hmsg
        exact ⟨hread, ih.mp hrest⟩
      · rintro ⟨hread, hrest⟩
        rw [bind_of_ok ((parseRouteInfo_ok_iff nlmsg).mpr ⟨hread, rfl⟩)]
        exact ih.mpr hrest
  | case2 nlmsg len hok =>
      rw [parseMsgs, if_neg hok, Except.ok.injEq]
      exact (and_iff_right (List.forall_mem_nil _)).symm

end Parsing

-- ============================================================================
-- The last attributes win
-- ============================================================================

section Last

variable {ifName : Nat → List Char} {buf : List UInt8} {info : RouteInfo} {len : Nat}

theorem lastOf_snoc (code : Nat) (attrs : List Attribute) (a : Attribute) :
    lastOf code (attrs ++ [a]) = if a.code = code then some a.value else lastOf code attrs := by
  rw [lastOf, List.reverse_append, List.reverse_singleton, List.singleton_append,
    List.find?_cons]
  by_cases h : a.code = code
  · rw [if_pos h, decide_eq_true h]
    rfl
  · rw [if_neg h, decide_eq_false h]
    rfl

theorem exists_lastOf {code : Nat} {attrs : List Attribute} {a : Attribute} (ha : a ∈ attrs)
    (hcode : a.code = code) : ∃ value, lastOf code attrs = some value := by
  have hfound : (attrs.reverse.find? fun a => a.code = code).isSome :=
    List.find?_isSome.mpr ⟨a, List.mem_reverse.mpr ha, decide_eq_true hcode⟩
  obtain ⟨last, hlast⟩ := Option.isSome_iff_exists.mp hfound
  exact ⟨last.value, by rw [lastOf, hlast, Option.map_some]⟩

/-- Every attribute overwrites what one of its type left. -/
theorem foldl_attributes (attrs : List Attribute) :
    (attrs.foldl (Attribute.apply ifName) info).ifaceName
        = ((lastOf rtaOif attrs).map ifName).getD info.ifaceName ∧
      (attrs.foldl (Attribute.apply ifName) info).gateWay
        = (lastOf rtaGateway attrs).getD info.gateWay := by
  induction attrs using List.reverseRecOn with
  | nil => exact ⟨rfl, rfl⟩
  | append_singleton attrs a ih =>
      rw [List.foldl_append, List.foldl_cons, List.foldl_nil, lastOf_snoc, lastOf_snoc,
        Attribute.apply]
      by_cases hoif : a.code = rtaOif
      · rw [if_pos hoif, if_pos hoif, if_neg (by rw [hoif]; decide)]
        exact ⟨rfl, ih.2⟩
      · rw [if_neg hoif, if_neg hoif]
        by_cases hgateway : a.code = rtaGateway
        · rw [if_pos hgateway, if_pos hgateway]
          exact ⟨ih.1, rfl⟩
        · rw [if_neg hgateway, if_neg hgateway]
          exact ih

/-- All attributes of the main-table routes. -/
def routeAttrs (buf : List UInt8) (len : Nat) : List Attribute :=
  (mainRoutes buf len).flatMap Message.attrs

theorem foldl_messages (messages : List Message) :
    messages.foldl (Message.apply ifName buf) info
      = ((messages.filter (Message.isMainRoute buf)).flatMap Message.attrs).foldl
          (Attribute.apply ifName) info := by
  induction messages generalizing info with
  | nil => rfl
  | cons m messages ih =>
      rw [List.foldl_cons, ih, Message.apply]
      by_cases hmain : m.isMainRoute buf = true
      · rw [if_pos hmain, List.filter_cons_of_pos hmain, List.flatMap_cons, List.foldl_append]
      · rw [if_neg hmain, List.filter_cons_of_neg hmain]

/-- The two words of every message lie in the buffer. -/
def Readable (buf : List UInt8) (len : Nat) : Prop :=
  ∀ m ∈ messagesAt buf 0 len, m.Readable buf

/-- What `obtain_gateway_route` makes of a dump that was received. -/
theorem obtainGatewayRoute_valid {pid : Nat} {socket : List (List UInt8)} {info' : RouteInfo}
    (h : readNetlinkMsg 1 pid socket (List.replicate bufsize 0) 0 = .ok (.valid buf len)) :
    obtainGatewayRoute ifName pid socket info = .ok (.returned 0 info') ↔
      Readable buf len ∧ (routeAttrs buf len).foldl (Attribute.apply ifName) info = info' := by
  rw [obtainGatewayRoute, bind_of_ok h, routeAttrs, mainRoutes, ← foldl_messages, Readable,
    ← parseMsgs_ok_iff]
  refine ⟨?_, ?_⟩
  · intro hret
    obtain ⟨info'', hparse, hret⟩ := exists_ok_of_bind hret
    cases hret
    exact hparse
  · intro hparse
    exact bind_of_ok hparse

end Last

-- ============================================================================
-- One route for both
-- ============================================================================

/-- `obtain_gateway_route` returns with the output interface and the gateway of one route of the
    dump. -/
def Paired (ifName : Nat → List Char) (pid : Nat) (socket : List (List UInt8)) (info : RouteInfo)
    (buf : List UInt8) (len : Nat) : Prop :=
  ∃ info', obtainGatewayRoute ifName pid socket info = .ok (.returned 0 info') ∧
    ∃ m ∈ mainRoutes buf len, m.Has rtaGateway info'.gateWay ∧
      ∃ index, m.Has rtaOif index ∧ info'.ifaceName = ifName index

/-- Some route has the last gateway of all routes, and an output interface of the same name as the
    last one of all routes. -/
def LastOfOneRoute (ifName : Nat → List Char) (buf : List UInt8) (len : Nat) : Prop :=
  ∃ gateway last, lastOf rtaGateway (routeAttrs buf len) = some gateway ∧
    lastOf rtaOif (routeAttrs buf len) = some last ∧
    ∃ m ∈ mainRoutes buf len, m.Has rtaGateway gateway ∧
      ∃ index, m.Has rtaOif index ∧ ifName index = ifName last

section Pairs

variable {ifName : Nat → List Char} {buf : List UInt8} {info : RouteInfo} {len : Nat}

theorem Message.Has.exists_lastOf {m : Message} {code value : Nat} (h : m.Has code value)
    (hm : m ∈ mainRoutes buf len) : ∃ last, lastOf code (routeAttrs buf len) = some last := by
  obtain ⟨a, ha, hcode, -⟩ := h
  exact NetUtils.exists_lastOf (List.mem_flatMap.mpr ⟨m, hm, ha⟩) hcode

/-- For every dump that `read_netlink_msg` accepts, the interface and the gateway that are left are
    those of one route exactly if what is read of the messages lies in the buffer and some route has
    the last gateway and the last output interface of the dump. -/
theorem paired_iff {pid : Nat} {socket : List (List UInt8)}
    (h : readNetlinkMsg 1 pid socket (List.replicate bufsize 0) 0 = .ok (.valid buf len)) :
    Paired ifName pid socket info buf len ↔
      Readable buf len ∧ LastOfOneRoute ifName buf len := by
  obtain ⟨hname, hgateway⟩ := @foldl_attributes ifName info (routeAttrs buf len)
  refine ⟨?_, ?_⟩
  · rintro ⟨info', hret, m, hm, hhas, index, hindex, hiface⟩
    obtain ⟨hread, rfl⟩ := (obtainGatewayRoute_valid h).mp hret
    obtain ⟨gateway, hlast⟩ := hhas.exists_lastOf hm
    obtain ⟨last, hlastOif⟩ := hindex.exists_lastOf hm
    rw [hlast, Option.getD_some] at hgateway
    rw [hlastOif, Option.map_some, Option.getD_some] at hname
    refine ⟨hread, gateway, last, hlast, hlastOif, m, hm, hgateway ▸ hhas, index, hindex, ?_⟩
    rw [← hiface, hname]
  · rintro ⟨hread, gateway, last, hlast, hlastOif, m, hm, hhas, index, hindex, hiface⟩
    rw [hlast, Option.getD_some] at hgateway
    rw [hlastOif, Option.map_some, Option.getD_some] at hname
    refine ⟨_, (obtainGatewayRoute_valid h).mpr ⟨hread, rfl⟩, m, hm, hgateway ▸ hhas, index, hindex,
      ?_⟩
    rw [hname, hiface]

end Pairs

-- ============================================================================
-- Dumps of the kernel
-- ============================================================================

section Dumps

variable {buf rest : List UInt8} {portId : Nat}

/-- The attributes are found again. -/
theorem attrsAt_eq {rta len : Nat} {attrs : List Attr}
    (h : buf.drop rta = attrs.flatMap Attr.bytes ++ rest) (hlen : len = 8 * attrs.length) :
    (attrsAt buf rta len).map (fun a => (a.code, a.value))
      = attrs.map (fun a => (a.code, a.value.toNat)) := by
  induction attrs generalizing rta len with
  | nil =>
      rw [attrsAt, if_neg (not_rtaOk_nil hlen)]
      rfl
  | cons a attrs ih =>
      obtain ⟨hok, hfirst, hnext, hrest⟩ := attrs_cons h hlen
      obtain ⟨-, hcode, hvalue⟩ := attr_words a hfirst
      rw [attrsAt, if_pos hok, List.map_cons, List.map_cons, hcode, hvalue, ih hnext hrest]

/-- The message of a route is one of the main table, with the attributes of the route. -/
theorem messageAt_eq (hport : portId < 2 ^ 32) {off : Nat} (r : Route)
    (h : buf.drop off = r.message portId ++ rest) :
    (messageAt buf off).isMainRoute buf = true ∧
      (messageAt buf off).attrs.map (fun a => (a.code, a.value))
        = r.attrs.map (fun a => (a.code, a.value.toNat)) := by
  have hlen := le32_message hport r h
  obtain ⟨hfamily, htable, hattrs⟩ := message_fields r h
  refine ⟨?_, ?_⟩
  · rw [Message.isMainRoute, decide_eq_true_iff]
    show (buf.getD (off + nlmsgHdrlen) 0).toNat = _ ∧ (buf.getD (off + nlmsgHdrlen + 4) 0).toNat = _
    rw [(load_ok_iff.mp hfamily).2, (load_ok_iff.mp htable).2]
    decide
  · exact attrsAt_eq hattrs (by rw [hlen, align, rtmsgSize, nlmsgHdrlen]; omega)

/-- The routes of a dump are found again, each with its attributes. -/
theorem mainRoutes_eq (hport : portId < 2 ^ 32) {nlmsg len : Nat} {routes : List Route}
    (h : buf.drop nlmsg = messages portId routes ++ rest)
    (hlen : len = (messages portId routes).length) :
    ((messagesAt buf nlmsg len).filter (Message.isMainRoute buf)).map
        (fun m => m.attrs.map fun a => (a.code, a.value))
      = routes.map fun r => r.attrs.map fun a => (a.code, a.value.toNat) := by
  induction routes generalizing nlmsg len with
  | nil =>
      rw [messagesAt, if_neg (not_nlmsgOk_nil hlen)]
      rfl
  | cons r routes ih =>
      obtain ⟨hok, hfirst, hnext, hrest⟩ := messages_cons hport h hlen
      obtain ⟨hmain, hattrs⟩ := messageAt_eq hport r hfirst
      rw [messagesAt, if_pos hok, List.filter_cons_of_pos hmain, List.map_cons, List.map_cons,
        hattrs]
      exact congrArg _ (ih hnext hrest)

theorem Message.has_iff {m : Message} {code value : Nat} :
    m.Has code value ↔ (code, value) ∈ m.attrs.map fun a => (a.code, a.value) := by
  rw [List.mem_map, Message.Has]
  simp only [Prod.mk.injEq]

/-- A route of a dump and its message. -/
theorem exists_mainRoute (hport : portId < 2 ^ 32) {routes : List Route}
    (h : buf.drop 0 = messages portId routes ++ rest) {r : Route} (hr : r ∈ routes) :
    ∃ m ∈ mainRoutes buf (messages portId routes).length,
      (m.attrs.map fun a => (a.code, a.value)) = r.attrs.map fun a => (a.code, a.value.toNat) := by
  have hmem := List.mem_map_of_mem (f := fun r => r.attrs.map fun a => (a.code, a.value.toNat)) hr
  rw [← mainRoutes_eq hport h rfl] at hmem
  exact List.mem_map.mp hmem

theorem exists_route (hport : portId < 2 ^ 32) {routes : List Route}
    (h : buf.drop 0 = messages portId routes ++ rest) {m : Message}
    (hm : m ∈ mainRoutes buf (messages portId routes).length) :
    ∃ r ∈ routes, (r.attrs.map fun a => (a.code, a.value.toNat))
      = m.attrs.map fun a => (a.code, a.value) := by
  have hmem := List.mem_map_of_mem (f := fun m => m.attrs.map fun a => (a.code, a.value)) hm
  rw [mainRoutes, mainRoutes_eq hport h rfl] at hmem
  exact List.mem_map.mp hmem

end Dumps

-- ============================================================================
-- A link route beside the default one
-- ============================================================================

/-- The network 10.0.0.0 is on the second interface. -/
def linkRoute : Route := { viaGateway 0x0000000a 0 8 with gateway := none, oif := some 3 }

def ifNames (index : Nat) : List Char :=
  if index = 2 then ['e', 't', 'h', '0'] else ['e', 't', 'h', '1']

def linkFirst : Dump [linkRoute, defaultRoute] :=
  oneDatagram [linkRoute, defaultRoute] (List.cons_ne_nil _ _) (by decide)

def linkLast : Dump [defaultRoute, linkRoute] :=
  oneDatagram [defaultRoute, linkRoute] (List.cons_ne_nil _ _) (by decide)

/-- With the default route last, interface and gateway are its own. -/
theorem paired_linkFirst :
    ∃ buf len, readNetlinkMsg 1 7 linkFirst.socket (List.replicate bufsize 0) 0
        = .ok (.valid buf len) ∧
      Paired ifNames 7 linkFirst.socket noInfo buf len ∧
      Readable buf len ∧ LastOfOneRoute ifNames buf len := by
  obtain ⟨buf, rest, hdrop, hread⟩ := linkFirst.read_ownDatagram rfl 7
  obtain ⟨m, hm, hattrs⟩ := exists_mainRoute (by decide) hdrop
    (List.mem_cons_of_mem linkRoute (List.mem_singleton_self defaultRoute))
  have hpaired : Paired ifNames 7 linkFirst.socket noInfo buf
      (messages linkFirst.portId [linkRoute, defaultRoute]).length := by
    refine ⟨_, obtainGatewayRoute_eq (List.cons_ne_nil _ _) linkFirst 7, m, hm, ?_, 2, ?_, rfl⟩
    · rw [Message.has_iff, hattrs]
      decide
    · rw [Message.has_iff, hattrs]
      decide
  exact ⟨buf, _, hread, hpaired, (paired_iff hread).mp hpaired⟩

/-- With the link route last, its interface is left with the gateway of the default route. -/
theorem unpaired_linkLast :
    ∃ buf len, readNetlinkMsg 1 7 linkLast.socket (List.replicate bufsize 0) 0
        = .ok (.valid buf len) ∧
      (∃ m ∈ mainRoutes buf len, m.Has rtaGateway 0x0101a8c0) ∧
      ¬ Paired ifNames 7 linkLast.socket noInfo buf len := by
  obtain ⟨buf, rest, hdrop, hread⟩ := linkLast.read_ownDatagram rfl 7
  refine ⟨buf, _, hread, ?_, ?_⟩
  · obtain ⟨m, hm, hattrs⟩ := exists_mainRoute (by decide) hdrop
      (List.mem_cons_self (a := defaultRoute) (l := [linkRoute]))
    refine ⟨m, hm, ?_⟩
    rw [Message.has_iff, hattrs]
    decide
  · rintro ⟨info', hret, m, hm, hgateway, index, hindex, hiface⟩
    have hown : linkLast.ownDatagram = true := rfl
    rw [obtainGatewayRoute_eq (List.cons_ne_nil _ _) linkLast 7, if_pos hown, Except.ok.injEq,
      Lookup.returned.injEq] at hret
    obtain ⟨-, rfl⟩ := hret
    obtain ⟨r, hr, hattrs⟩ := exists_route (by decide) hdrop hm
    rw [Message.has_iff, ← hattrs] at hgateway hindex
    rcases List.mem_cons.mp hr with rfl | hr
    · have honly : ∀ pair ∈ defaultRoute.attrs.map (fun a => (a.code, a.value.toNat)),
          pair.1 = rtaOif → pair.2 = 2 := by decide
      have htwo : index = 2 := honly _ hindex rfl
      rw [htwo] at hiface
      exact absurd hiface (by decide)
    · rw [List.mem_singleton.mp hr] at hgateway
      exact absurd hgateway (by decide)

end LinuxCodeDemos.NetUtils
