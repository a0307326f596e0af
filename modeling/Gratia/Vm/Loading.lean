import Gratia.Support.Runs
import Gratia.Vm.Effects
import Gratia.Vm.Runtime

/-!
# Vm — Loading

What `parse_module` makes of the bytes.  However its cursor is moved, it stays on the bytes it was
given, so that the code of a function is a piece of them, and no longer.
-/

namespace Gratia

open Support Reader

variable {data : Bytes} {α β : Type} {Q : α → Prop} {R : β → Prop}

/-- A read on `data` stays there, and what it gives is in `Q`. -/
def Yields (data : Bytes) (Q : α → Prop) (x : Read α) : Prop :=
  ∀ r a r', r.data = data → x r = .ok a r' → r'.data = data ∧ Q a

/-- A read on `data` stays there. -/
abbrev Keeps (data : Bytes) (x : Read α) : Prop := Yields data (fun _ => True) x

namespace Yields

theorem of_forward {x : Read α} (h : Forward x) : Keeps data x :=
  fun r _ _ hdata hx => ⟨((h r).ok hx).1.trans hdata, trivial⟩

theorem pure {a : α} (h : Q a) : Yields data Q (Pure.pure a) := by
  rintro r _ _ hdata ⟨⟩
  exact ⟨hdata, h⟩

theorem throw (e : InterpError) : Yields data Q (MonadExcept.throw e : Read α) := by
  rintro r _ _ - ⟨⟩

theorem bind {x : Read α} {f : α → Read β} (hx : Yields data Q x)
    (hf : ∀ a, Q a → Yields data R (f a)) : Yields data R (x >>= f) := by
  intro r b r' hdata h
  obtain ⟨a, r₁, ha, hb⟩ := bind_ok.mp h
  obtain ⟨hdata₁, hQ⟩ := hx r a r₁ hdata ha
  exact hf a hQ r₁ b r' hdata₁ hb

/-- A read of which nothing more is said than that it keeps the bytes. -/
theorem next {x : Read α} {f : α → Read β} (hx : Keeps data x)
    (hf : ∀ a, Yields data R (f a)) : Yields data R (x >>= f) :=
  hx.bind fun a _ => hf a

theorem get : Keeps data (MonadState.get : Read Reader) := by
  rintro r _ _ hdata ⟨⟩
  exact ⟨hdata, trivial⟩

theorem readU32Leb128 : Keeps data readU32Leb128 :=
  of_forward Forward.readU32Leb128

theorem readByte : Keeps data readByte := of_forward Forward.readByte

theorem readBytes (n : ℕ) :
    Yields data (fun bytes => bytes.length ≤ data.length) (readBytes n) := by
  rintro r bytes r' rfl h
  unfold Reader.readBytes at h
  split at h
  · cases h
  · cases h
    exact ⟨rfl, (List.length_take_le _ _).trans (by omega)⟩

theorem many {p : Read α} (hp : Yields data Q p) (n : ℕ) :
    Yields data (fun as => ∀ a ∈ as, Q a) (many p n) := by
  induction n with
  | zero => exact .pure (by simp)
  | succ n ih =>
    refine hp.bind fun a ha => ih.bind fun as has => .pure ?_
    exact List.forall_mem_cons.mpr ⟨ha, has⟩

theorem readVec {p : Read α} (hp : Yields data Q p) :
    Yields data (fun as => ∀ a ∈ as, Q a) (readVec p) :=
  readU32Leb128.next fun _ => hp.many _

theorem readString : Keeps data readString := by
  refine readU32Leb128.next fun len => (readBytes _).bind fun bytes _ => ?_
  cases fromUtf8 bytes with
  | none => exact throw _
  | some s => exact .pure trivial

theorem readValType : Keeps data readValType := by
  refine readByte.next fun b => ?_
  cases ValType.fromByte b with
  | ok t => exact .pure trivial
  | error e => exact throw e

theorem parseConstExpr (t : ValType) : Keeps data (parseConstExpr t) := by
  have hended (v : Value) : Keeps data (parseConstExpr.ended v) := by
    refine readByte.next fun b => ?_
    split
    · exact throw _
    · exact .pure trivial
  refine readByte.next fun opcode => ?_
  split
  · exact (of_forward ((Forward.readLeb128 _ _ _ _ _).map _)).next fun _ => hended _
  · exact (of_forward ((Forward.readLeb128 _ _ _ _ _).map _)).next fun _ => hended _
  · exact (of_forward ((Forward.readBytes _).map _)).next fun _ => hended _
  · exact (of_forward ((Forward.readBytes _).map _)).next fun _ => hended _
  · exact .pure trivial

theorem parseFuncType : Keeps data parseFuncType := by
  refine readByte.next fun marker => ?_
  split
  · exact throw _
  · exact readValType.readVec.bind fun _ _ => readValType.readVec.bind fun _ _ => .pure trivial

theorem parseImport : Keeps data parseImport := by
  refine readString.next fun module => readString.next fun name => readByte.next fun kind => ?_
  split
  · exact throw _
  · exact readU32Leb128.next fun _ => .pure trivial

theorem parseMemory : Keeps data parseMemory := by
  refine readByte.next fun flags => readU32Leb128.next fun minPages => ?_
  split
  · exact readU32Leb128.next fun _ => .pure trivial
  · exact .pure trivial

theorem parseGlobal : Keeps data parseGlobal :=
  readValType.next fun _ => readByte.next fun _ => (parseConstExpr _).next fun _ => .pure trivial

theorem parseExport : Keeps data parseExport := by
  refine readString.next fun name => readByte.next fun kind => readU32Leb128.next fun index => ?_
  split
  all_goals exact .pure trivial

theorem parseLocals : Keeps data parseLocals :=
  readU32Leb128.next fun _ => readValType.next fun _ => .pure trivial

theorem parseBody : Yields data (fun body => body.2.length ≤ data.length) parseBody := by
  refine readU32Leb128.next fun size => get.next fun start => ?_
  refine parseLocals.readVec.bind fun locals _ => get.next fun now => ?_
  dsimp only
  split
  · exact throw _
  · exact (readBytes _).bind fun code hcode => .pure hcode

theorem parseData : Keeps data parseData := by
  have hdata (offset : UInt32) : Keeps data (do
      let len ← Reader.readU32Leb128
      let bytes ← Reader.readBytes len.toNat
      return (⟨offset, bytes⟩ : DataSegment)) :=
    readU32Leb128.next fun _ => (readBytes _).bind fun _ _ => .pure trivial
  refine readU32Leb128.next fun flags => ?_
  dsimp only
  split
  · refine (parseConstExpr _).next fun offset => ?_
    split
    all_goals exact hdata _
  · exact hdata 0

/-- The code that the sections hold is no longer than the bytes. -/
def Within (data : Bytes) (s : Sections) : Prop :=
  ∀ body ∈ s.codeBodies, body.2.length ≤ data.length

variable {s : Sections}

theorem parseSection (hs : Within data s) (sectionId : UInt8) :
    Yields data (Within data) (parseSection s sectionId) := by
  unfold Gratia.parseSection
  split
  · exact parseFuncType.readVec.bind fun _ _ => .pure hs
  · exact parseImport.readVec.bind fun _ _ => .pure hs
  · exact readU32Leb128.readVec.bind fun _ _ => .pure hs
  · exact parseMemory.readVec.bind fun _ _ => .pure hs
  · exact parseGlobal.readVec.bind fun _ _ => .pure hs
  · exact parseExport.readVec.bind fun _ _ => .pure hs
  · exact parseBody.readVec.bind fun _ hbodies => .pure (List.forall_mem_append.mpr ⟨hs, hbodies⟩)
  · exact parseData.readVec.bind fun _ _ => .pure hs
  · exact .pure hs

theorem parseSections (fuel : ℕ) (hs : Within data s) :
    Yields data (Within data) (parseSections fuel s) := by
  induction fuel generalizing s with
  | zero => exact .pure hs
  | succ fuel ih =>
    refine get.next fun now => ?_
    split
    · exact .pure hs
    refine readByte.next fun sectionId => readU32Leb128.next fun size => get.next fun start => ?_
    refine (parseSection hs sectionId).bind fun s' hs' => ?_
    -- the cursor goes to the end that the header claims
    have hseek : Keeps data (modify fun r : Reader =>
        { r with pos := start.pos + size.toNat } : Read PUnit) := by
      rintro r _ _ hdata ⟨⟩
      exact ⟨hdata, trivial⟩
    exact hseek.next fun _ => ih hs'

theorem readModule (size : ℕ) :
    Yields data (fun m => ∀ func ∈ m.functions, func.code.length ≤ data.length)
      (readModule size) := by
  refine (readBytes 4).bind fun magic _ => ?_
  split
  · exact throw _
  refine (readBytes 4).bind fun version _ => ?_
  split
  · exact throw _
  refine (parseSections size (by simp [Within])).bind fun s hs => .pure fun func hfunc => ?_
  -- each function is a type index with the code body at its place
  change func ∈ List.zipWith _ _ _ at hfunc
  rw [← List.map_uncurry_zip_eq_zipWith] at hfunc
  obtain ⟨⟨typeIdx, body⟩, hmem, rfl⟩ := List.mem_map.mp hfunc
  exact hs body (List.of_mem_zip hmem).2

end Yields

/-- **The code of a function is no longer than the bytes of its module.** -/
theorem code_length_le {bytecode : Bytes} {m : WasmModule} (h : parseModule bytecode = .ok m) :
    ∀ func ∈ m.functions, func.code.length ≤ bytecode.length := by
  unfold parseModule at h
  split at h
  next hread =>
    cases h
    exact (Yields.readModule _ _ _ _ rfl hread).2
  next => cases h

end Gratia
