import Mathlib.Data.List.Nodup
import SwiftMangling.Node.Kind
import SwiftMangling.Text.Basic

/-!
# The names of kinds

A name has letters only, so it ends where anything else begins, and no two kinds have the same one.
-/

namespace SwiftMangling

namespace CodePoint

lemma ofChar_injective : Function.Injective ofChar := by
  intro c d h
  have hnat : c.toNat = d.toNat := Fin.mk.inj h
  rw [← Char.ofNat_toNat c, hnat, Char.ofNat_toNat]

end CodePoint

namespace Text

lemma ofString_injective : Function.Injective ofString := by
  intro s t h
  apply String.toList_injective
  exact CodePoint.ofChar_injective.list_map h

end Text

namespace Kind

lemma mem_all (kind : Kind) : kind ∈ all := by
  have hplace : all[kind.ctorIdx]? = some kind := by
    cases kind <;> rfl
  exact List.mem_of_getElem? hplace

theorem name_injective : Function.Injective name := by
  have hdistinct : (all.map name).Nodup := by decide +kernel
  intro kind kind' h
  exact List.inj_on_of_nodup_map hdistinct kind.mem_all kind'.mem_all h

/-- The letters are read off the literal of each name. -/
lemma name_letters (kind : Kind) : ∃ letters, kind.name = String.ofList letters ∧
    letters.all Char.isAlpha = true := by
  cases kind <;> exact ⟨_, rfl, rfl⟩

lemma ne_of_mem_name {kind : Kind} {c : CodePoint} (hc : c ∈ Text.ofString kind.name) {d : Char}
    (hd : d.isAlpha = false) : c ≠ .ofChar d := by
  obtain ⟨letters, hname, hletters⟩ := kind.name_letters
  rw [hname, Text.ofString, String.toList_ofList, List.mem_map] at hc
  obtain ⟨letter, hletter, rfl⟩ := hc
  intro h
  have halpha := List.all_eq_true.1 hletters letter hletter
  rw [CodePoint.ofChar_injective h, hd] at halpha
  cases halpha

end Kind

end SwiftMangling
