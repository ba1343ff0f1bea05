/-
# QueryCost.Proofs.Text.Utf8 -- the characters of encoded text

Encoded characters are read back, all of them (`characters_utf8Encode`), and bytes
that are read without a NUL are the encoding of what is read
(`eq_utf8Encode_of_characters`): a byte that does not fit always shows as one.
-/
import QueryCost.Text.Utf8

namespace QueryCost.Text.Utf8

set_option autoImplicit false

theorem extract_append_size (front back : ByteArray) :
    (front ++ back).extract front.size (front ++ back).size = back := by
  rw [ByteArray.size_append, ByteArray.extract_append_eq_right rfl rfl]

theorem size_utf8Encode_singleton (c : Char) : [c].utf8Encode.size = c.utf8Size := by
  rw [List.utf8Encode_singleton, List.size_toByteArray, String.length_utf8EncodeChar]

theorem charactersFrom_append (cs : List Char) (front : ByteArray) (done : List Char) :
    charactersFrom (front ++ cs.utf8Encode) front.size done = done.reverse ++ cs := by
  induction cs generalizing front done with
  | nil =>
      rw [charactersFrom, if_neg (by simp), List.append_nil]
  | cons c cs ih =>
      have decoded : (front ++ (c :: cs).utf8Encode).utf8DecodeChar? front.size = some c := by
        rw [ByteArray.utf8DecodeChar?_eq_utf8DecodeChar?_extract, extract_append_size]
        exact List.utf8DecodeChar?_utf8Encode_cons
      have inside := ByteArray.lt_size_of_isSome_utf8DecodeChar? (Option.isSome_of_eq_some decoded)
      rw [charactersFrom, if_pos inside, decoded]
      have more := ih (front ++ [c].utf8Encode) (c :: done)
      rw [ByteArray.size_append, size_utf8Encode_singleton, ByteArray.append_assoc,
        ← List.utf8Encode_cons] at more
      simp only [more, List.reverse_cons, List.append_assoc, List.singleton_append]

theorem characters_utf8Encode (cs : List Char) : characters cs.utf8Encode = cs := by
  have all := charactersFrom_append cs ByteArray.empty []
  rwa [ByteArray.empty_append] at all

theorem exists_of_charactersFrom (bytes : ByteArray) (i : Nat) (done : List Char) :
    ∃ cs, charactersFrom bytes i done = done.reverse ++ cs ∧
      ('\x00' ∉ cs → bytes.extract i bytes.size = cs.utf8Encode) := by
  fun_induction charactersFrom bytes i done with
  | case1 i done inside c decoded ih =>
      obtain ⟨cs, same, encoded⟩ := ih
      refine ⟨c :: cs, by rw [same]; simp, fun absent => ?_⟩
      rw [ByteArray.utf8DecodeChar?_eq_utf8DecodeChar?_extract] at decoded
      have front := ByteArray.eq_of_utf8DecodeChar?_eq_some decoded
      have behind := encoded fun among => absent (List.mem_cons_of_mem c among)
      have toEnd : min (i + (bytes.extract i bytes.size).size) bytes.size = bytes.size := by
        rw [ByteArray.size_extract]
        omega
      rw [ByteArray.extract_extract, toEnd] at front
      rw [front, List.utf8Encode_cons, List.utf8Encode_singleton, ← behind]
  | case2 i done inside lost =>
      exact ⟨['\x00'], by simp, fun absent => absurd List.mem_cons_self absent⟩
  | case3 i done outside =>
      refine ⟨[], by simp, fun _ => ?_⟩
      rw [ByteArray.extract_eq_empty_iff.2 (by omega)]
      rfl

theorem eq_utf8Encode_of_characters {bytes : ByteArray} {cs : List Char}
    (read : characters bytes = cs) (absent : '\x00' ∉ cs) : bytes = cs.utf8Encode := by
  obtain ⟨ds, same, encoded⟩ := exists_of_charactersFrom bytes 0 []
  rw [characters] at read
  rw [read, List.reverse_nil, List.nil_append] at same
  subst same
  have whole := encoded absent
  rwa [ByteArray.extract_zero_size] at whole

end QueryCost.Text.Utf8
