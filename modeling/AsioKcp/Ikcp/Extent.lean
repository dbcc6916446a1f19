import AsioKcp.Ikcp.Input

/-! # The bytes that `ikcp_input` reads

Every length in a segment is compared with the rest of the input before it is
used, so that nothing behind the `size` bytes of the input is read. -/
set_option autoImplicit false

namespace AsioKcp.Ikcp

open AsioKcp.Bytes

section Extent
variable {data data' : List UInt8}

/-- The fields that stand in a header, with the length of the payload. -/
theorem header_agree (agree : Agree ikcpOverhead data data') :
    (decodeSeg data).conv = (decodeSeg data').conv ∧
      (decodeSeg data).cmd = (decodeSeg data').cmd ∧
      read32 (data.drop 20) = read32 (data'.drop 20) := by
  refine ⟨agree.read32 (by decide), ?_, (agree.drop 20).read32 (by decide)⟩
  change (data.getD 4 0).toUInt32 = (data'.getD 4 0).toUInt32
  rw [agree.getD (by decide)]

/-- A segment whose payload lies inside of the input. -/
theorem decodeSeg_agree {size : Nat} (agree : Agree size data data') (long : ¬ size < ikcpOverhead)
    (inside : (read32 (data.drop 20)).toNat ≤ size - ikcpOverhead) :
    decodeSeg data = decodeSeg data' := by
  have header : Agree ikcpOverhead data data' := agree.mono (by omega)
  obtain ⟨conv, cmd, len⟩ := header_agree header
  have payload : (data.drop ikcpOverhead).take (read32 (data.drop 20)).toNat =
      (data'.drop ikcpOverhead).take (read32 (data'.drop 20)).toNat := by
    rw [← len]
    exact (agree.drop ikcpOverhead).mono inside
  have frg : data.getD 5 0 = data'.getD 5 0 := header.getD (by decide)
  have wnd : read16 (data.drop 6) = read16 (data'.drop 6) := (header.drop 6).read16 (by decide)
  have ts : read32 (data.drop 8) = read32 (data'.drop 8) := (header.drop 8).read32 (by decide)
  have sn : read32 (data.drop 12) = read32 (data'.drop 12) := (header.drop 12).read32 (by decide)
  have una : read32 (data.drop 16) = read32 (data'.drop 16) := (header.drop 16).read32 (by decide)
  have conv' : read32 data = read32 data' := conv
  have cmd' : (data.getD 4 0).toUInt32 = (data'.getD 4 0).toUInt32 := cmd
  simp only [decodeSeg, payload, frg, wnd, ts, sn, una, conv', cmd']

theorem inputLoop_agree (fuel : Nat) : ∀ {data data' : List UInt8} {size : Nat}
    (state : InputState), Agree size data data' →
      inputLoop fuel data size state = inputLoop fuel data' size state := by
  induction fuel with
  | zero => exact fun _ _ => rfl
  | succ fuel ih =>
      intro data data' size state agree
      by_cases short : size < ikcpOverhead
      · simp only [inputLoop, if_pos short]
      · obtain ⟨conv, cmd, len⟩ := header_agree (agree.mono (by omega))
        simp only [inputLoop, if_neg short, ← conv, ← cmd, ← len]
        by_cases inside : size - ikcpOverhead < (read32 (data.drop 20)).toNat ∨
            (read32 (data.drop 20)).toNat ≥ 2 ^ 31
        · simp only [if_pos inside]
        · have fits : (read32 (data.drop 20)).toNat ≤ size - ikcpOverhead := by omega
          have rest := agree.drop (ikcpOverhead + (read32 (data.drop 20)).toNat)
          rw [Nat.sub_add_eq] at rest
          rw [← decodeSeg_agree agree short fits, ih _ rest]

theorem ikcpInput_agree (kcp : Ikcpcb) {size : Nat} (agree : Agree size data data') :
    ikcpInput kcp data size = ikcpInput kcp data' size := by
  rw [ikcpInput, ikcpInput, inputLoop_agree size _ agree]

end Extent

end AsioKcp.Ikcp
