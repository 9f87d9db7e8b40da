import SourceSwitch.Text.Basic

namespace SourceSwitch.Text

def encode (t : Text) : ByteArray := (String.ofList t).toUTF8

def decode? (bytes : ByteArray) : Option Text := (String.fromUTF8? bytes).map String.toList

@[simp] theorem decode?_encode (t : Text) : decode? (encode t) = some t := by
  have h : String.fromUTF8? (String.ofList t).toUTF8 = some (String.ofList t) :=
    dif_pos (String.ofList t).isValidUTF8
  rw [decode?, encode, h, Option.map_some, String.toList_ofList]

theorem encode_of_decode? {bytes : ByteArray} {t : Text} (h : decode? bytes = some t) :
    encode t = bytes := by
  obtain ⟨s, hs, rfl⟩ := Option.map_eq_some_iff.mp h
  rw [String.fromUTF8?] at hs
  split at hs
  · rw [encode, String.ofList_toList, ← Option.some.inj hs]; rfl
  · cases hs

end SourceSwitch.Text
