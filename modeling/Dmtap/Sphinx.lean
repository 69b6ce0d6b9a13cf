import Dmtap.Lib.Layout
import Dmtap.Lib.Reader

/-! The byte layouts of the mixnet: cells, the routing commands in their headers, reply blocks, and
the headers of fragments. Every layout has one length, and every value one spelling. -/
namespace Dmtap.Sphinx
open Dmtap.Lib

def alphaLen : ℕ := 32

def betaLen : ℕ := 240

def gammaLen : ℕ := 16

def deltaLen : ℕ := 2048

def cellLen : ℕ := alphaLen + betaLen + gammaLen + deltaLen

def routingCommandLen : ℕ := 48

def surbHeaderLen : ℕ := alphaLen + betaLen + gammaLen

def surbLen : ℕ := 32 + surbHeaderLen + 32

def fragmentHeaderLen : ℕ := 16

inductive SphinxError
  | wrongLength (what : String) (expected got : ℕ)
  | unknownCommand (cmd : UInt8)
  | reservedNonZero
  deriving DecidableEq, Repr

/-- Take the bytes only if there are as many as expected. -/
def fixed (bytes : Bytes) (what : String) (expected : ℕ) : Except SphinxError (BytesOf expected) :=
  if h : bytes.length = expected then .ok ⟨bytes, h⟩
  else .error (.wrongLength what expected bytes.length)

theorem fixed_eq_ok {bytes : Bytes} {what : String} {expected : ℕ} {b : BytesOf expected} :
    fixed bytes what expected = .ok b ↔ b.val = bytes := by
  unfold fixed
  constructor
  · intro h
    split_ifs at h with hlen
    obtain rfl := Except.ok.inj h
    rfl
  · rintro rfl
    rw [dif_pos b.property]

/-- What one hop is told to do. -/
structure RoutingCommand where
  cmd : UInt8
  flags : UInt8
  delayMs : UInt32
  nextHop : BytesOf 32
  deriving DecidableEq

namespace RoutingCommand

/-- The last ten bytes are reserved. -/
def toBytes (c : RoutingCommand) : Bytes :=
  [c.cmd, c.flags] ++ toBe 4 c.delayMs.toNat ++ c.nextHop.val ++ List.replicate 10 0

/-- A command is known, uses the last-hop flag only, and names no next hop where it delivers. -/
def WellFormed (c : RoutingCommand) : Prop :=
  c.cmd ≤ 2 ∧ c.flags &&& 0xfe = 0 ∧ (c.cmd = 1 → ∀ x ∈ c.nextHop.val, x = 0)

instance : DecidablePred WellFormed := fun c =>
  haveI : Decidable (∀ x ∈ c.nextHop.val, x = 0) := List.decidableBAll _ _
  inferInstanceAs (Decidable (c.cmd ≤ 2 ∧ c.flags &&& 0xfe = 0 ∧
    (c.cmd = 1 → ∀ x ∈ c.nextHop.val, x = 0)))

def fromBytes (bytes : Bytes) : Except SphinxError RoutingCommand := do
  let b ← fixed bytes "RoutingCommand" routingCommandLen
  let cmd := b.byte 0 (by decide)
  let flags := b.byte 1 (by decide)
  let nextHop := b.piece 6 32 (by decide)
  if 2 < cmd then .error (.unknownCommand cmd)
  else if flags &&& 0xfe ≠ 0 then .error .reservedNonZero
  else if cmd = 1 ∧ nextHop.val.any (· ≠ 0) then .error .reservedNonZero
  else if (b.piece 38 10 (by decide)).val.any (· ≠ 0) then .error .reservedNonZero
  else .ok ⟨cmd, flags, UInt32.ofNat (ofBe (b.piece 2 4 (by decide)).val), nextHop⟩

/-- The bytes of a command, whatever the reserved ones are. -/
def layout (b : BytesOf routingCommandLen) : RoutingCommand :=
  ⟨b.byte 0 (by decide), b.byte 1 (by decide),
    UInt32.ofNat (ofBe (b.piece 2 4 (by decide)).val), b.piece 6 32 (by decide)⟩

theorem fromBytes_eq_ok {bytes : Bytes} {c : RoutingCommand} : fromBytes bytes = .ok c ↔
    ∃ b : BytesOf routingCommandLen, b.val = bytes ∧ c.WellFormed ∧
      (∀ x ∈ (b.piece 38 10 (by decide)).val, x = 0) ∧ layout b = c := by
  unfold fromBytes WellFormed
  rw [except_bind_eq_ok]
  refine exists_congr fun b => ?_
  rw [fixed_eq_ok]
  refine and_congr_right fun _ => ?_
  dsimp only
  rw [except_guard_eq_ok, except_guard_eq_ok, except_guard_eq_ok, except_guard_eq_ok,
    Except.ok.injEq]
  constructor
  · rintro ⟨hcmd, hflags, hhop, hreserved, rfl⟩
    simp only [UInt8.not_lt, not_not, not_and, List.any_eq_true, not_exists, decide_eq_true_eq]
      at hcmd hflags hhop hreserved
    exact ⟨⟨hcmd, hflags, hhop⟩, hreserved, rfl⟩
  · rintro ⟨⟨hcmd, hflags, hhop⟩, hreserved, rfl⟩
    simp only [UInt8.not_lt, not_not, not_and, List.any_eq_true, not_exists, decide_eq_true_eq]
    exact ⟨hcmd, hflags, hhop, hreserved, rfl⟩

theorem length_toBytes (c : RoutingCommand) : c.toBytes.length = routingCommandLen := by
  simp [toBytes, routingCommandLen, c.nextHop.property]

/-- The fields of a command lie where they are read, and zeros behind them. -/
theorem layout_of_toBytes {c : RoutingCommand} {b : BytesOf routingCommandLen}
    (hval : b.val = c.toBytes) :
    layout b = c ∧ (b.piece 38 10 (by decide)).val = List.replicate 10 0 := by
  unfold toBytes at hval
  have hcmd : b.byte 0 (by decide) = c.cmd := b.byte_eq [] c.cmd _ hval rfl (by decide)
  have hflags : b.byte 1 (by decide) = c.flags := b.byte_eq (i := 1) [c.cmd] _ _ hval rfl (by decide)
  have hdelay : b.piece 2 4 (by decide) = beBytes 4 c.delayMs.toNat :=
    b.piece_eq (i := 2) [c.cmd, c.flags] _ (c.nextHop.val ++ List.replicate 10 0) (by simpa [beBytes] using hval)
      rfl (by decide)
  have hhop : b.piece 6 32 (by decide) = c.nextHop :=
    b.piece_eq ([c.cmd, c.flags] ++ toBe 4 c.delayMs.toNat) c.nextHop (List.replicate 10 0)
      (by simpa using hval) (by simp) (by decide)
  have hreserved : b.piece 38 10 (by decide) = ⟨List.replicate 10 0, rfl⟩ :=
    b.piece_eq ([c.cmd, c.flags] ++ toBe 4 c.delayMs.toNat ++ c.nextHop.val) _ []
      (by simpa using hval) (by simp [c.nextHop.property]) (by decide)
  have hnumber : ofBe (beBytes 4 c.delayMs.toNat).val = c.delayMs.toNat :=
    ofBe_toBe 4 _ c.delayMs.toNat_lt
  unfold layout
  rw [hcmd, hflags, hdelay, hhop, hreserved, hnumber, UInt32.ofNat_toNat]
  exact ⟨rfl, rfl⟩

theorem toBytes_layout (b : BytesOf routingCommandLen)
    (h : ∀ x ∈ (b.piece 38 10 (by decide)).val, x = 0) : (layout b).toBytes = b.val := by
  have hreserved : (b.piece 38 10 (by decide)).val = List.replicate 10 0 :=
    List.eq_replicate_iff.mpr ⟨(b.piece 38 10 (by decide)).property, h⟩
  have hdelay : toBe 4 (UInt32.ofNat (ofBe (b.piece 2 4 (by decide)).val)).toNat =
      (b.piece 2 4 (by decide)).val := by
    rw [UInt32.toNat_ofNat_of_lt' (b.piece 2 4 (by decide)).ofBe_lt]
    exact (b.piece 2 4 (by decide)).toBe_ofBe
  have hhead : [b.byte 0 (by decide), b.byte 1 (by decide)] = (b.piece 0 2 (by decide)).val := by
    have hjoin := b.front_append (v := 1) (w := 1) (by decide)
    rw [b.piece_one (by decide), b.piece_one (by decide)] at hjoin
    exact hjoin
  unfold toBytes layout
  dsimp only
  rw [hdelay, ← hreserved, hhead, b.front_append (v := 2) (w := 4) (by decide),
    b.front_append (v := 6) (w := 32) (by decide),
    b.front_append (v := 38) (w := 10) (by decide)]
  exact b.piece_all

theorem codec : FixedCodec routingCommandLen toBytes fromBytes WellFormed where
  length c _ := length_toBytes c
  read c hc := by
    obtain ⟨hlayout, hreserved⟩ := layout_of_toBytes (b := ⟨c.toBytes, length_toBytes c⟩) rfl
    refine fromBytes_eq_ok.mpr ⟨⟨c.toBytes, length_toBytes c⟩, rfl, hc, ?_, hlayout⟩
    rw [hreserved]
    exact fun x hx => List.eq_of_mem_replicate hx
  written bytes c h := by
    obtain ⟨b, rfl, hwf, hreserved, rfl⟩ := fromBytes_eq_ok.mp h
    exact ⟨hwf, toBytes_layout b hreserved⟩

end RoutingCommand

/-- A reply block, opaque to the one who replies. The header is not kept to its length by the type. -/
structure Surb where
  firstHop : BytesOf 32
  header : Bytes
  keySeed : BytesOf 32
  deriving DecidableEq

namespace Surb

def toBytes (s : Surb) : Bytes := s.firstHop.val ++ s.header ++ s.keySeed.val

def WellFormed (s : Surb) : Prop := s.header.length = surbHeaderLen

def fromBytes (bytes : Bytes) : Except SphinxError Surb := do
  let b ← fixed bytes "Surb" surbLen
  return ⟨b.piece 0 32 (by decide), (b.piece 32 surbHeaderLen (by decide)).val,
    b.piece (32 + surbHeaderLen) 32 (by decide)⟩

theorem length_toBytes {s : Surb} (h : s.WellFormed) : s.toBytes.length = surbLen := by
  unfold WellFormed at h
  simp only [toBytes, List.length_append, s.firstHop.property, s.keySeed.property, h]
  rfl

theorem codec : FixedCodec surbLen toBytes fromBytes WellFormed where
  length s hs := length_toBytes hs
  read s hs := by
    obtain ⟨b, hval⟩ : ∃ b : BytesOf surbLen, b.val = s.toBytes := ⟨⟨_, length_toBytes hs⟩, rfl⟩
    refine except_bind_eq_ok.mpr ⟨b, fixed_eq_ok.mpr hval, ?_⟩
    unfold toBytes at hval
    have hfirst : b.piece 0 32 (by decide) = s.firstHop :=
      b.piece_eq [] s.firstHop (s.header ++ s.keySeed.val) (by simpa using hval) rfl (by decide)
    have hheader : b.piece 32 surbHeaderLen (by decide) = ⟨s.header, hs⟩ :=
      b.piece_eq s.firstHop.val ⟨s.header, hs⟩ s.keySeed.val (by simpa using hval)
        s.firstHop.property (by decide)
    have hseed : b.piece (32 + surbHeaderLen) 32 (by decide) = s.keySeed :=
      b.piece_eq (s.firstHop.val ++ s.header) s.keySeed [] (by simpa using hval)
        (by rw [List.length_append, s.firstHop.property, hs]) (by decide)
    rw [hfirst, hheader, hseed]
    rfl
  written bytes s h := by
    obtain ⟨b, hb, h⟩ := except_bind_eq_ok.mp h
    obtain rfl := Except.ok.inj h
    rw [← fixed_eq_ok.mp hb]
    refine ⟨(b.piece 32 surbHeaderLen (by decide)).property, ?_⟩
    unfold toBytes
    dsimp only
    rw [b.front_append (v := 32) (w := surbHeaderLen) (by decide),
      b.front_append (v := 32 + surbHeaderLen) (w := 32) (by decide)]
    exact b.piece_all

end Surb

/-- The header of one fragment of a message. -/
structure SphinxFragmentHeader where
  msgId : BytesOf 8
  fragIndex : UInt16
  fragCount : UInt16
  totalLen : UInt32
  deriving DecidableEq

namespace SphinxFragmentHeader

def toBytes (f : SphinxFragmentHeader) : Bytes :=
  f.msgId.val ++ toBe 2 f.fragIndex.toNat ++ toBe 2 f.fragCount.toNat ++ toBe 4 f.totalLen.toNat

def fromBytes (bytes : Bytes) : Except SphinxError SphinxFragmentHeader := do
  let b ← fixed bytes "SphinxFragmentHeader" fragmentHeaderLen
  return ⟨b.piece 0 8 (by decide), UInt16.ofNat (ofBe (b.piece 8 2 (by decide)).val),
    UInt16.ofNat (ofBe (b.piece 10 2 (by decide)).val),
    UInt32.ofNat (ofBe (b.piece 12 4 (by decide)).val)⟩

theorem length_toBytes (f : SphinxFragmentHeader) : f.toBytes.length = fragmentHeaderLen := by
  simp [toBytes, fragmentHeaderLen, f.msgId.property]

theorem codec : FixedCodec fragmentHeaderLen toBytes fromBytes fun _ => True where
  length f _ := length_toBytes f
  read f _ := by
    obtain ⟨b, hval⟩ : ∃ b : BytesOf fragmentHeaderLen, b.val = f.toBytes :=
      ⟨⟨_, length_toBytes f⟩, rfl⟩
    refine except_bind_eq_ok.mpr ⟨b, fixed_eq_ok.mpr hval, ?_⟩
    unfold toBytes at hval
    have hid : b.piece 0 8 (by decide) = f.msgId :=
      b.piece_eq [] f.msgId
        (toBe 2 f.fragIndex.toNat ++ toBe 2 f.fragCount.toNat ++ toBe 4 f.totalLen.toNat)
        (by simpa using hval) rfl (by decide)
    have hindex : b.piece 8 2 (by decide) = beBytes 2 f.fragIndex.toNat :=
      b.piece_eq f.msgId.val _ (toBe 2 f.fragCount.toNat ++ toBe 4 f.totalLen.toNat)
        (by simpa [beBytes] using hval) f.msgId.property (by decide)
    have hcount : b.piece 10 2 (by decide) = beBytes 2 f.fragCount.toNat :=
      b.piece_eq (f.msgId.val ++ toBe 2 f.fragIndex.toNat) _ (toBe 4 f.totalLen.toNat)
        (by simpa [beBytes] using hval) (by simp [f.msgId.property]) (by decide)
    have hlen : b.piece 12 4 (by decide) = beBytes 4 f.totalLen.toNat :=
      b.piece_eq (f.msgId.val ++ toBe 2 f.fragIndex.toNat ++ toBe 2 f.fragCount.toNat) _ []
        (by simpa [beBytes] using hval) (by simp [f.msgId.property]) (by decide)
    have hindex' : ofBe (beBytes 2 f.fragIndex.toNat).val = f.fragIndex.toNat :=
      ofBe_toBe 2 _ f.fragIndex.toNat_lt
    have hcount' : ofBe (beBytes 2 f.fragCount.toNat).val = f.fragCount.toNat :=
      ofBe_toBe 2 _ f.fragCount.toNat_lt
    have hlen' : ofBe (beBytes 4 f.totalLen.toNat).val = f.totalLen.toNat :=
      ofBe_toBe 4 _ f.totalLen.toNat_lt
    rw [hid, hindex, hcount, hlen, hindex', hcount', hlen', UInt16.ofNat_toNat, UInt16.ofNat_toNat,
      UInt32.ofNat_toNat]
    rfl
  written bytes f h := by
    obtain ⟨b, hb, h⟩ := except_bind_eq_ok.mp h
    obtain rfl := Except.ok.inj h
    rw [← fixed_eq_ok.mp hb]
    refine ⟨trivial, ?_⟩
    unfold toBytes
    dsimp only
    rw [UInt16.toNat_ofNat_of_lt' (b.piece 8 2 (by decide)).ofBe_lt,
      UInt16.toNat_ofNat_of_lt' (b.piece 10 2 (by decide)).ofBe_lt,
      UInt32.toNat_ofNat_of_lt' (b.piece 12 4 (by decide)).ofBe_lt, BytesOf.toBe_ofBe,
      BytesOf.toBe_ofBe, BytesOf.toBe_ofBe, b.front_append (v := 8) (w := 2) (by decide),
      b.front_append (v := 10) (w := 2) (by decide),
      b.front_append (v := 12) (w := 4) (by decide)]
    exact b.piece_all

end SphinxFragmentHeader

/-- A cell on the wire. The onion and the payload are not kept to their lengths by the type. -/
structure SphinxCell where
  alpha : BytesOf alphaLen
  beta : Bytes
  gamma : BytesOf gammaLen
  delta : Bytes
  deriving DecidableEq

namespace SphinxCell

def toBytes (c : SphinxCell) : Bytes := c.alpha.val ++ c.beta ++ c.gamma.val ++ c.delta

def WellFormed (c : SphinxCell) : Prop := c.beta.length = betaLen ∧ c.delta.length = deltaLen

def fromBytes (bytes : Bytes) : Except SphinxError SphinxCell := do
  let b ← fixed bytes "SphinxCell" cellLen
  return ⟨b.piece 0 alphaLen (by decide), (b.piece alphaLen betaLen (by decide)).val,
    b.piece (alphaLen + betaLen) gammaLen (by decide),
    (b.piece (alphaLen + betaLen + gammaLen) deltaLen (by decide)).val⟩

theorem length_toBytes {c : SphinxCell} (h : c.WellFormed) : c.toBytes.length = cellLen := by
  obtain ⟨hbeta, hdelta⟩ := h
  simp only [toBytes, List.length_append, c.alpha.property, c.gamma.property, hbeta, hdelta]
  rfl

theorem codec : FixedCodec cellLen toBytes fromBytes WellFormed where
  length c hc := length_toBytes hc
  read c hc := by
    obtain ⟨b, hval⟩ : ∃ b : BytesOf cellLen, b.val = c.toBytes := ⟨⟨_, length_toBytes hc⟩, rfl⟩
    refine except_bind_eq_ok.mpr ⟨b, fixed_eq_ok.mpr hval, ?_⟩
    unfold toBytes at hval
    obtain ⟨hbeta, hdelta⟩ := hc
    have halpha : b.piece 0 alphaLen (by decide) = c.alpha :=
      b.piece_eq [] c.alpha (c.beta ++ c.gamma.val ++ c.delta) (by simpa using hval) rfl
        (by decide)
    have hbeta' : b.piece alphaLen betaLen (by decide) = ⟨c.beta, hbeta⟩ :=
      b.piece_eq c.alpha.val ⟨c.beta, hbeta⟩ (c.gamma.val ++ c.delta) (by simpa using hval)
        c.alpha.property (by decide)
    have hgamma : b.piece (alphaLen + betaLen) gammaLen (by decide) = c.gamma :=
      b.piece_eq (c.alpha.val ++ c.beta) c.gamma c.delta (by simpa using hval)
        (by rw [List.length_append, c.alpha.property, hbeta]) (by decide)
    have hdelta' : b.piece (alphaLen + betaLen + gammaLen) deltaLen (by decide) =
        ⟨c.delta, hdelta⟩ :=
      b.piece_eq (c.alpha.val ++ c.beta ++ c.gamma.val) ⟨c.delta, hdelta⟩ []
        (by simpa using hval)
        (by rw [List.length_append, List.length_append, c.alpha.property, hbeta, c.gamma.property])
        (by decide)
    rw [halpha, hbeta', hgamma, hdelta']
    rfl
  written bytes c h := by
    obtain ⟨b, hb, h⟩ := except_bind_eq_ok.mp h
    obtain rfl := Except.ok.inj h
    rw [← fixed_eq_ok.mp hb]
    refine ⟨⟨(b.piece alphaLen betaLen (by decide)).property,
      (b.piece (alphaLen + betaLen + gammaLen) deltaLen (by decide)).property⟩, ?_⟩
    unfold toBytes
    dsimp only
    rw [b.front_append (v := alphaLen) (w := betaLen) (by decide),
      b.front_append (v := alphaLen + betaLen) (w := gammaLen) (by decide),
      b.front_append (v := alphaLen + betaLen + gammaLen) (w := deltaLen) (by decide)]
    exact b.piece_all

/-- The cell in which a reply goes out: the header of the reply block, and the reply. -/
theorem fromBytes_reply {s : Surb} (hs : s.WellFormed) (reply : BytesOf deltaLen) :
    ∃ c, fromBytes (s.header ++ reply.val) = .ok c ∧ c.delta = reply.val ∧
      c.alpha.val ++ c.beta ++ c.gamma.val = s.header := by
  obtain ⟨h, hh⟩ : ∃ h : BytesOf surbHeaderLen, h.val = s.header := ⟨⟨s.header, hs⟩, rfl⟩
  have hparts : (h.piece 0 alphaLen (by decide)).val ++ (h.piece alphaLen betaLen (by decide)).val ++
      (h.piece (alphaLen + betaLen) gammaLen (by decide)).val = s.header := by
    rw [h.front_append (v := alphaLen) (w := betaLen) (by decide),
      h.front_append (v := alphaLen + betaLen) (w := gammaLen) (by decide), ← hh]
    exact h.piece_all
  let c : SphinxCell := ⟨h.piece 0 alphaLen (by decide), (h.piece alphaLen betaLen (by decide)).val,
    h.piece (alphaLen + betaLen) gammaLen (by decide), reply.val⟩
  have hc : c.WellFormed := ⟨(h.piece alphaLen betaLen (by decide)).property, reply.property⟩
  have hbytes : c.toBytes = s.header ++ reply.val := by
    rw [← hparts]
    rfl
  rw [← hbytes]
  exact ⟨c, codec.read c hc, rfl, hparts⟩

end SphinxCell

/-- Every layout of the mixnet has one length and is read back as it was written, and nothing else
is read; cells, reply blocks and fragment headers are read from all bytes of the right length; and a
reply block and a reply make a cell. -/
theorem layouts_round_trip :
    (FixedCodec routingCommandLen RoutingCommand.toBytes RoutingCommand.fromBytes
        RoutingCommand.WellFormed ∧
      FixedCodec surbLen Surb.toBytes Surb.fromBytes Surb.WellFormed ∧
      FixedCodec fragmentHeaderLen SphinxFragmentHeader.toBytes SphinxFragmentHeader.fromBytes
        (fun _ => True) ∧
      FixedCodec cellLen SphinxCell.toBytes SphinxCell.fromBytes SphinxCell.WellFormed) ∧
      (∀ b : Bytes, (∃ s, Surb.fromBytes b = .ok s) ↔ b.length = surbLen) ∧
      (∀ b : Bytes, (∃ f, SphinxFragmentHeader.fromBytes b = .ok f) ↔
        b.length = fragmentHeaderLen) ∧
      (∀ b : Bytes, (∃ c, SphinxCell.fromBytes b = .ok c) ↔ b.length = cellLen) ∧
      ∀ s : Surb, s.WellFormed → ∀ reply : BytesOf deltaLen,
        ∃ c, SphinxCell.fromBytes (s.header ++ reply.val) = .ok c ∧ c.delta = reply.val ∧
          c.alpha.val ++ c.beta ++ c.gamma.val = s.header := by
  refine ⟨⟨RoutingCommand.codec, Surb.codec, SphinxFragmentHeader.codec, SphinxCell.codec⟩, ?_, ?_,
    ?_, ?_⟩
  · intro b
    refine ⟨fun ⟨s, hs⟩ => Surb.codec.length_of_get hs, fun h => ?_⟩
    exact ⟨_, except_bind_eq_ok.mpr ⟨⟨b, h⟩, fixed_eq_ok.mpr rfl, rfl⟩⟩
  · intro b
    refine ⟨fun ⟨f, hf⟩ => SphinxFragmentHeader.codec.length_of_get hf, fun h => ?_⟩
    exact ⟨_, except_bind_eq_ok.mpr ⟨⟨b, h⟩, fixed_eq_ok.mpr rfl, rfl⟩⟩
  · intro b
    refine ⟨fun ⟨c, hc⟩ => SphinxCell.codec.length_of_get hc, fun h => ?_⟩
    exact ⟨_, except_bind_eq_ok.mpr ⟨⟨b, h⟩, fixed_eq_ok.mpr rfl, rfl⟩⟩
  · intro s hs reply
    exact SphinxCell.fromBytes_reply hs reply

/-- One byte all over. -/
def uniform (n : ℕ) (b : UInt8) : BytesOf n := ⟨List.replicate n b, List.length_replicate⟩

/-- To another mix, after a quarter of a second. -/
def forwardCommand : RoutingCommand := ⟨0, 0, 250, uniform 32 7⟩

def replySurb : Surb := ⟨uniform 32 7, (uniform surbHeaderLen 1).val, uniform 32 2⟩

def uniformCell : SphinxCell :=
  ⟨uniform alphaLen 1, (uniform betaLen 2).val, uniform gammaLen 3, (uniform deltaLen 4).val⟩

theorem layouts_round_trip_uniform :
    RoutingCommand.fromBytes forwardCommand.toBytes = .ok forwardCommand ∧
      Surb.fromBytes replySurb.toBytes = .ok replySurb ∧
      SphinxCell.fromBytes uniformCell.toBytes = .ok uniformCell ∧
      ∃ c, SphinxCell.fromBytes (replySurb.header ++ (uniform deltaLen 5).val) = .ok c ∧
        c.delta = (uniform deltaLen 5).val ∧ c.alpha.val ++ c.beta ++ c.gamma.val =
          replySurb.header := by
  obtain ⟨⟨hcommand, hsurb, -, hcell⟩, -, -, -, hreply⟩ := layouts_round_trip
  have hheader : replySurb.WellFormed := (uniform surbHeaderLen 1).property
  exact ⟨hcommand.read _ (by decide), hsurb.read _ hheader,
    hcell.read _ ⟨(uniform betaLen 2).property, (uniform deltaLen 4).property⟩,
    hreply replySurb hheader (uniform deltaLen 5)⟩

end Dmtap.Sphinx
