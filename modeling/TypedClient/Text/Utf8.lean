namespace TypedClient.Text

def ofBytes? (bytes : List UInt8) : Option String :=
  String.fromUTF8? bytes.toByteArray

def toBytes (s : String) : List UInt8 :=
  s.toUTF8.toList

end TypedClient.Text
