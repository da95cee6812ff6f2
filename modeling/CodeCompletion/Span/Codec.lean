import CodeCompletion.Json.Decode
import CodeCompletion.Span

namespace CodeCompletion

def Span.toJson (s : Span) : Json :=
  .obj [("end", .nat s.stop), ("start", .nat s.start)]

def Span.decode : Decoder Span :=
  Decode.record do
    let start ← Decode.required "start" Decode.nat32
    let stop ← Decode.required "end" Decode.nat32
    return ⟨start, stop⟩

def TextEdit.toJson (e : TextEdit) : Json :=
  .obj [("new_text", .str e.newText), ("range", e.range.toJson)]

def TextEdit.decode : Decoder TextEdit :=
  Decode.record do
    let range ← Decode.required "range" Span.decode
    let newText ← Decode.required "new_text" Decode.string
    return ⟨range, newText⟩

end CodeCompletion
