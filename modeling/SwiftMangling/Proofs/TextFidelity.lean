import SwiftMangling.Cursor
import SwiftMangling.Proofs.Spelling
import SwiftMangling.Proofs.Suffix

/-!
# Texts keep the bytes of names

A name is handed in as bytes or as the text in which these bytes are read, and both hold the same bytes.
A text without surrogates comes back from its bytes. So the texts of identifiers and of trailing bytes
tell which bytes they were read from.
-/

namespace SwiftMangling

/-- The text in the bytes that characters stand for, one for each. -/
def Text.ofChars? (chars : Text) : Option Text :=
  (Text.toBytes? chars).map Utf8.decode

lemma Text.ofChars?_ofBytes (bytes : Bytes) :
    Text.ofChars? (Text.ofBytes bytes) = some (Utf8.decode bytes) := by
  rw [Text.ofChars?, Text.toBytes?_ofBytes, Option.map_some]

/-- Bytes and the text in which they are read are the same name, whatever the bytes are, and a text
without surrogates comes back from its bytes. So nothing of a name is lost in the texts of a tree: the
text of an identifier tells the bytes of its name, and trailing bytes are those of the text that holds
them. -/
theorem bytes_kept :
    (∀ bytes : Bytes, ∃ content, Text.ofChars? (Text.ofBytes bytes) = some content ∧
      (Cursor.start (MangledName.text content).toBytes).unread = bytes ∧
      ∀ form settings, demangle form settings (.text content) = demangle form settings (.bytes bytes)) ∧
    (∀ content : Text, (∀ c ∈ content, c.isSurrogate = false) →
      Text.ofChars? (Text.ofBytes (Cursor.start (MangledName.text content).toBytes).unread) =
        some content) ∧
    (∀ (required : Option Kind) (limit : Int) (s s' : Grammar.State) (node : Node),
      Grammar.identifier required limit s = .found node s' →
      ∃ (spelling : Grammar.Spelling) (text : Text), s.unread = spelling.bytes ++ s'.unread ∧
        spelling.Counted ∧ node = .named node.kind text ∧ spelling.Tells text) ∧
    ∀ (settings : Settings) (name : MangledName) (root suffix : Node),
      demangle .symbol settings name = .tree root → root.children.getLast? = some suffix →
      suffix.kind = .suffix →
      ∃ (front : Bytes) (text : Text) (trunk : Node), suffix = .named .suffix text ∧
        name.toBytes = front ++ (MangledName.text text).toBytes ∧
        demangle .symbol settings (.bytes front) = .tree trunk ∧ root = trunk.push suffix := by
  refine ⟨fun bytes => ?_, fun content hscalars => ?_, ?_, ?_⟩
  · refine ⟨Utf8.decode bytes, Text.ofChars?_ofBytes bytes, ?_, fun form settings => ?_⟩
    · exact MangledName.toBytes_decode bytes
    · unfold demangle
      rw [MangledName.toBytes_decode]
      rfl
  · have hunread : (Cursor.start (MangledName.text content).toBytes).unread = Utf8.encode content :=
      MangledName.toBytes_of_scalars hscalars
    rw [hunread, Text.ofChars?_ofBytes, Utf8.decode_encode hscalars]
  · intro required limit s s' node hfound
    exact Grammar.identifier_found hfound
  · intro settings name root suffix htree hlast hkind
    have hbytes : demangle .symbol settings (.bytes name.toBytes) = .tree root := htree
    obtain ⟨front, rest, trunk, hname, -, hsuffix, hfront, hroot⟩ := demangle_split hbytes hlast hkind
    refine ⟨front, Utf8.decode rest, trunk, hsuffix, ?_, hfront, hroot⟩
    rw [hname, MangledName.toBytes_decode]

/-- A variable whose name ends with the first half of a character, before the other half. -/
def halvedName : Bytes :=
  Mangle.ascii "_Tv4main2a" ++ [0xC3] ++ Mangle.ascii "Si" ++ [0xA9]

/-- The two halves of a character stay apart: one in the name of a variable, one after the symbol. -/
theorem bytes_kept_halves :
    (∃ content, Text.ofChars? (Text.ofBytes halvedName) = some content ∧
      (Cursor.start (MangledName.text content).toBytes).unread = halvedName ∧
      demangle .symbol {} (.text content) = demangle .symbol {} (.bytes halvedName)) ∧
    Text.ofChars? (Text.ofBytes (Cursor.start (MangledName.text [0xE9]).toBytes).unread) =
      some [0xE9] ∧
    (∃ (spelling : Grammar.Spelling) (text : Text), [0x32, 0x61, 0xC3, 0x53] = spelling.bytes ++ [0x53] ∧
      spelling.Counted ∧ spelling.Tells text) ∧
    ∃ (front : Bytes) (text : Text) (trunk : Node),
      halvedName = front ++ (MangledName.text text).toBytes ∧
      demangle .symbol {} (.bytes front) = .tree trunk := by
  obtain ⟨hbytes, htext, hidentifier, hsuffix⟩ := bytes_kept
  refine ⟨?_, ?_, ?_, ?_⟩
  · obtain ⟨content, hcontent, hcursor, hsame⟩ := hbytes halvedName
    exact ⟨content, hcontent, hcursor, hsame .symbol {}⟩
  · exact htext [0xE9] (List.forall_mem_singleton.2 rfl)
  · obtain ⟨spelling, text, hspelled, hcounted, -, htells⟩ := hidentifier none 100
      ⟨[0x32, 0x61, 0xC3, 0x53], []⟩ ⟨[0x53], []⟩ (.named .identifier (Utf8.decode [0x61, 0xC3])) rfl
    exact ⟨spelling, text, hspelled, hcounted, htells⟩
  · have hkinds : ((demangle .symbol {} (.bytes halvedName)).tree?.bind fun root =>
        root.children.getLast?.map Node.kind) = some .suffix := by decide +kernel
    obtain ⟨root, htree, hkind⟩ := Option.bind_eq_some_iff.1 hkinds
    obtain ⟨suffix, hlast, hkind⟩ := Option.map_eq_some_iff.1 hkind
    obtain ⟨front, text, trunk, -, hname, hfront, -⟩ :=
      hsuffix {} (.bytes halvedName) root suffix (Verdict.eq_tree_of_tree? htree) hlast hkind
    exact ⟨front, text, trunk, hname, hfront⟩

end SwiftMangling
