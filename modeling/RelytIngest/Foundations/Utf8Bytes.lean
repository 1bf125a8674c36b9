import RelytIngest.Foundations.DecimalText

/-!
# Text in bytes

`bytesText` reads the UTF-8 encoding of a text, and gives back what was encoded
(`bytesText_toUTF8`).
-/

set_option autoImplicit false
set_option relaxedAutoImplicit false

namespace RelytIngest.Foundations

/-- The loop has read the bytes before `index`, the last one first. -/
theorem loop_toList (bytes : ByteArray) (index : Nat) (read : List UInt8) :
    ByteArray.toList.loop bytes index read = read.reverse ++ bytes.data.toList.drop index := by
  fun_induction ByteArray.toList.loop bytes index read with
  | case1 index read hlt ih =>
    have hbyte : bytes.get! index = bytes.data.toList[index] := getElem!_pos bytes.data index hlt
    have hrest := List.drop_eq_getElem_cons (l := bytes.data.toList) hlt
    rw [ih, hrest, hbyte, List.reverse_cons, List.append_assoc, List.singleton_append]
  | case2 index read hge =>
    have hlength : bytes.data.toList.length ≤ index := Nat.le_of_not_lt hge
    rw [List.drop_eq_nil_of_le hlength, List.append_nil]

theorem toList_eq (bytes : ByteArray) : bytes.toList = bytes.data.toList :=
  loop_toList bytes 0 []

/-- The text that bytes encode, unless they are not UTF-8. -/
def bytesText (bytes : List UInt8) : Option Text :=
  bytes.toByteArray.utf8Decode?.map Array.toList

theorem bytesText_toUTF8 (text : Text) :
    bytesText (String.ofList text).toUTF8.toList = some text := by
  have hbytes : (String.ofList text).toUTF8.toList.toByteArray = text.utf8Encode := by
    rw [toList_eq]
    exact ByteArray.ext (Array.toList_inj.mp List.toList_data_toByteArray)
  rw [bytesText, hbytes, List.utf8Decode?_utf8Encode]
  rfl

end RelytIngest.Foundations
