import Renaming.Java.GenericSignature
import Renaming.Java.TypeIndex

/-!
# The catalogue of core library types

Types that every program uses, known without any library on the class path. A class of the same
name on the class path takes the place of a catalogued one.
-/

namespace Renaming.Java

namespace Catalogue

/-- A member by its signature. Methods of interfaces are abstract unless static or default. -/
inductive Member where
  | field (name signature : String)
  | method (name signature : String)
  | staticMethod (name signature : String)
  | staticVarargs (name signature : String)
  | varargs (name signature : String)
  | defaultMethod (name signature : String)

/-- Supertypes by name, or a class signature. -/
inductive Header where
  | plain (superclass : Option String) (interfaces : List String)
  | generic (signature : String)

structure Entry where
  kind : TypeKind
  binary : String
  header : Header
  members : List Member

open Member in
def entries : List Entry := [
  { kind := .class_, binary := "java.lang.Object"
    header := .plain none []
    members := [
      method "<init>" "()V",
      method "equals" "(Ljava/lang/Object;)Z",
      method "hashCode" "()I",
      method "toString" "()Ljava/lang/String;",
      method "getClass" "()Ljava/lang/Class;",
      method "clone" "()Ljava/lang/Object;",
      method "finalize" "()V",
      method "notify" "()V",
      method "notifyAll" "()V",
      method "wait" "()V",
      method "wait" "(J)V",
      method "wait" "(JI)V"] },
  { kind := .interface, binary := "java.lang.CharSequence"
    header := .plain none []
    members := [
      method "length" "()I",
      method "charAt" "(I)C",
      method "subSequence" "(II)Ljava/lang/CharSequence;",
      method "isEmpty" "()Z"] },
  { kind := .interface, binary := "java.lang.Comparable"
    header := .generic "<T:Ljava/lang/Object;>Ljava/lang/Object;"
    members := [
      method "compareTo" "(TT;)I"] },
  { kind := .interface, binary := "java.lang.Iterable"
    header := .generic "<T:Ljava/lang/Object;>Ljava/lang/Object;"
    members := [
      method "iterator" "()Ljava/util/Iterator<TT;>;",
      defaultMethod "forEach" "(Ljava/util/function/Consumer<-TT;>;)V"] },
  { kind := .interface, binary := "java.lang.Runnable"
    header := .plain none []
    members := [
      method "run" "()V"] },
  { kind := .interface, binary := "java.lang.AutoCloseable"
    header := .plain none []
    members := [
      method "close" "()V"] },
  { kind := .interface, binary := "java.lang.Cloneable"
    header := .plain none []
    members := [] },
  { kind := .interface, binary := "java.lang.Appendable"
    header := .plain none []
    members := [] },
  { kind := .interface, binary := "java.io.Serializable"
    header := .plain none []
    members := [] },
  { kind := .interface, binary := "java.io.Closeable"
    header := .plain none ["java.lang.AutoCloseable"]
    members := [] },
  { kind := .interface, binary := "java.lang.annotation.Annotation"
    header := .plain none []
    members := [
      method "annotationType" "()Ljava/lang/Class;"] },
  { kind := .class_, binary := "java.lang.String"
    header := .generic
      ("Ljava/lang/Object;Ljava/io/Serializable;Ljava/lang/Comparable<Ljava/lang/String;>;" ++
        "Ljava/lang/CharSequence;")
    members := [
      method "<init>" "()V",
      method "<init>" "(Ljava/lang/String;)V",
      method "<init>" "([C)V",
      method "<init>" "([B)V",
      method "length" "()I",
      method "isEmpty" "()Z",
      method "charAt" "(I)C",
      method "equals" "(Ljava/lang/Object;)Z",
      method "equalsIgnoreCase" "(Ljava/lang/String;)Z",
      method "compareTo" "(Ljava/lang/String;)I",
      method "hashCode" "()I",
      method "toString" "()Ljava/lang/String;",
      method "substring" "(I)Ljava/lang/String;",
      method "substring" "(II)Ljava/lang/String;",
      method "indexOf" "(I)I",
      method "indexOf" "(Ljava/lang/String;)I",
      method "lastIndexOf" "(I)I",
      method "lastIndexOf" "(Ljava/lang/String;)I",
      method "startsWith" "(Ljava/lang/String;)Z",
      method "endsWith" "(Ljava/lang/String;)Z",
      method "contains" "(Ljava/lang/CharSequence;)Z",
      method "concat" "(Ljava/lang/String;)Ljava/lang/String;",
      method "replace" "(CC)Ljava/lang/String;",
      method "replace" "(Ljava/lang/CharSequence;Ljava/lang/CharSequence;)Ljava/lang/String;",
      method "trim" "()Ljava/lang/String;",
      method "strip" "()Ljava/lang/String;",
      method "toLowerCase" "()Ljava/lang/String;",
      method "toUpperCase" "()Ljava/lang/String;",
      method "split" "(Ljava/lang/String;)[Ljava/lang/String;",
      method "toCharArray" "()[C",
      method "getBytes" "()[B",
      method "intern" "()Ljava/lang/String;",
      staticVarargs "format" "(Ljava/lang/String;[Ljava/lang/Object;)Ljava/lang/String;",
      staticVarargs "join" "(Ljava/lang/CharSequence;[Ljava/lang/CharSequence;)Ljava/lang/String;",
      staticMethod "valueOf" "(Ljava/lang/Object;)Ljava/lang/String;",
      staticMethod "valueOf" "(I)Ljava/lang/String;",
      staticMethod "valueOf" "(J)Ljava/lang/String;",
      staticMethod "valueOf" "(C)Ljava/lang/String;",
      staticMethod "valueOf" "(Z)Ljava/lang/String;",
      staticMethod "valueOf" "(D)Ljava/lang/String;",
      staticMethod "valueOf" "(F)Ljava/lang/String;"] },
  { kind := .class_, binary := "java.lang.StringBuilder"
    header := .plain none ["java.lang.CharSequence", "java.lang.Appendable", "java.io.Serializable"]
    members := [
      method "<init>" "()V",
      method "<init>" "(I)V",
      method "<init>" "(Ljava/lang/String;)V",
      method "append" "(Ljava/lang/Object;)Ljava/lang/StringBuilder;",
      method "append" "(Ljava/lang/String;)Ljava/lang/StringBuilder;",
      method "append" "(Ljava/lang/CharSequence;)Ljava/lang/StringBuilder;",
      method "append" "(C)Ljava/lang/StringBuilder;",
      method "append" "(I)Ljava/lang/StringBuilder;",
      method "append" "(J)Ljava/lang/StringBuilder;",
      method "append" "(Z)Ljava/lang/StringBuilder;",
      method "append" "(F)Ljava/lang/StringBuilder;",
      method "append" "(D)Ljava/lang/StringBuilder;",
      method "insert" "(ILjava/lang/String;)Ljava/lang/StringBuilder;",
      method "reverse" "()Ljava/lang/StringBuilder;",
      method "setLength" "(I)V",
      method "length" "()I",
      method "charAt" "(I)C",
      method "toString" "()Ljava/lang/String;"] },
  { kind := .class_, binary := "java.lang.Class"
    header := .generic "<T:Ljava/lang/Object;>Ljava/lang/Object;"
    members := [
      method "getName" "()Ljava/lang/String;",
      method "getSimpleName" "()Ljava/lang/String;",
      method "isInstance" "(Ljava/lang/Object;)Z",
      method "cast" "(Ljava/lang/Object;)TT;"] },
  { kind := .class_, binary := "java.lang.Enum"
    header := .generic
      "<E:Ljava/lang/Enum<TE;>;>Ljava/lang/Object;Ljava/lang/Comparable<TE;>;Ljava/io/Serializable;"
    members := [
      method "name" "()Ljava/lang/String;",
      method "ordinal" "()I",
      method "toString" "()Ljava/lang/String;",
      method "compareTo" "(TE;)I",
      method "getDeclaringClass" "()Ljava/lang/Class<TE;>;",
      staticMethod "valueOf"
        "<T:Ljava/lang/Enum<TT;>;>(Ljava/lang/Class<TT;>;Ljava/lang/String;)TT;"] },
  { kind := .class_, binary := "java.lang.Record"
    header := .plain none []
    members := [
      method "equals" "(Ljava/lang/Object;)Z",
      method "hashCode" "()I",
      method "toString" "()Ljava/lang/String;"] },
  { kind := .class_, binary := "java.lang.Number"
    header := .plain none ["java.io.Serializable"]
    members := [
      method "intValue" "()I",
      method "longValue" "()J",
      method "floatValue" "()F",
      method "doubleValue" "()D",
      method "byteValue" "()B",
      method "shortValue" "()S"] },
  { kind := .class_, binary := "java.lang.Integer"
    header := .generic "Ljava/lang/Number;Ljava/lang/Comparable<Ljava/lang/Integer;>;"
    members := [
      field "MAX_VALUE" "I",
      field "MIN_VALUE" "I",
      staticMethod "valueOf" "(I)Ljava/lang/Integer;",
      staticMethod "valueOf" "(Ljava/lang/String;)Ljava/lang/Integer;",
      staticMethod "parseInt" "(Ljava/lang/String;)I",
      staticMethod "toString" "(I)Ljava/lang/String;",
      staticMethod "compare" "(II)I",
      method "compareTo" "(Ljava/lang/Integer;)I"] },
  { kind := .class_, binary := "java.lang.Long"
    header := .plain (some "java.lang.Number") ["java.lang.Comparable"]
    members := [
      field "MAX_VALUE" "J",
      field "MIN_VALUE" "J",
      staticMethod "valueOf" "(J)Ljava/lang/Long;",
      staticMethod "parseLong" "(Ljava/lang/String;)J",
      staticMethod "compare" "(JJ)I"] },
  { kind := .class_, binary := "java.lang.Short"
    header := .plain (some "java.lang.Number") ["java.lang.Comparable"]
    members := [
      staticMethod "valueOf" "(S)Ljava/lang/Short;"] },
  { kind := .class_, binary := "java.lang.Byte"
    header := .plain (some "java.lang.Number") ["java.lang.Comparable"]
    members := [
      staticMethod "valueOf" "(B)Ljava/lang/Byte;"] },
  { kind := .class_, binary := "java.lang.Float"
    header := .plain (some "java.lang.Number") ["java.lang.Comparable"]
    members := [
      staticMethod "valueOf" "(F)Ljava/lang/Float;",
      staticMethod "parseFloat" "(Ljava/lang/String;)F",
      staticMethod "compare" "(FF)I"] },
  { kind := .class_, binary := "java.lang.Double"
    header := .plain (some "java.lang.Number") ["java.lang.Comparable"]
    members := [
      staticMethod "valueOf" "(D)Ljava/lang/Double;",
      staticMethod "parseDouble" "(Ljava/lang/String;)D",
      staticMethod "compare" "(DD)I"] },
  { kind := .class_, binary := "java.lang.Boolean"
    header := .plain none ["java.io.Serializable", "java.lang.Comparable"]
    members := [
      field "TRUE" "Ljava/lang/Boolean;",
      field "FALSE" "Ljava/lang/Boolean;",
      staticMethod "valueOf" "(Z)Ljava/lang/Boolean;",
      staticMethod "parseBoolean" "(Ljava/lang/String;)Z",
      method "booleanValue" "()Z"] },
  { kind := .class_, binary := "java.lang.Character"
    header := .plain none ["java.io.Serializable", "java.lang.Comparable"]
    members := [
      staticMethod "valueOf" "(C)Ljava/lang/Character;",
      staticMethod "isDigit" "(C)Z",
      staticMethod "isLetter" "(C)Z",
      staticMethod "isWhitespace" "(C)Z",
      staticMethod "toUpperCase" "(C)C",
      staticMethod "toLowerCase" "(C)C",
      method "charValue" "()C"] },
  { kind := .class_, binary := "java.lang.Void"
    header := .plain none []
    members := [] },
  { kind := .class_, binary := "java.lang.Math"
    header := .plain none []
    members := [
      field "PI" "D",
      field "E" "D",
      staticMethod "abs" "(I)I",
      staticMethod "abs" "(J)J",
      staticMethod "abs" "(F)F",
      staticMethod "abs" "(D)D",
      staticMethod "max" "(II)I",
      staticMethod "max" "(JJ)J",
      staticMethod "max" "(FF)F",
      staticMethod "max" "(DD)D",
      staticMethod "min" "(II)I",
      staticMethod "min" "(JJ)J",
      staticMethod "min" "(FF)F",
      staticMethod "min" "(DD)D",
      staticMethod "sqrt" "(D)D",
      staticMethod "pow" "(DD)D",
      staticMethod "floor" "(D)D",
      staticMethod "ceil" "(D)D",
      staticMethod "round" "(D)J",
      staticMethod "round" "(F)I",
      staticMethod "random" "()D"] },
  { kind := .class_, binary := "java.io.PrintStream"
    header := .plain none []
    members := [
      method "println" "()V",
      method "println" "(Z)V",
      method "println" "(C)V",
      method "println" "(I)V",
      method "println" "(J)V",
      method "println" "(F)V",
      method "println" "(D)V",
      method "println" "([C)V",
      method "println" "(Ljava/lang/String;)V",
      method "println" "(Ljava/lang/Object;)V",
      method "print" "(Z)V",
      method "print" "(C)V",
      method "print" "(I)V",
      method "print" "(J)V",
      method "print" "(F)V",
      method "print" "(D)V",
      method "print" "(Ljava/lang/String;)V",
      method "print" "(Ljava/lang/Object;)V",
      varargs "printf" "(Ljava/lang/String;[Ljava/lang/Object;)Ljava/io/PrintStream;",
      method "flush" "()V"] },
  { kind := .class_, binary := "java.io.InputStream"
    header := .plain none ["java.io.Closeable"]
    members := [
      method "read" "()I"] },
  { kind := .class_, binary := "java.lang.System"
    header := .plain none []
    members := [
      field "out" "Ljava/io/PrintStream;",
      field "err" "Ljava/io/PrintStream;",
      field "in" "Ljava/io/InputStream;",
      staticMethod "currentTimeMillis" "()J",
      staticMethod "nanoTime" "()J",
      staticMethod "arraycopy" "(Ljava/lang/Object;ILjava/lang/Object;II)V",
      staticMethod "exit" "(I)V",
      staticMethod "getProperty" "(Ljava/lang/String;)Ljava/lang/String;",
      staticMethod "lineSeparator" "()Ljava/lang/String;"] },
  { kind := .class_, binary := "java.lang.Thread"
    header := .plain none ["java.lang.Runnable"]
    members := [
      method "<init>" "()V",
      method "<init>" "(Ljava/lang/Runnable;)V",
      method "start" "()V",
      method "run" "()V",
      method "join" "()V",
      method "interrupt" "()V",
      staticMethod "sleep" "(J)V",
      staticMethod "currentThread" "()Ljava/lang/Thread;"] },
  { kind := .class_, binary := "java.lang.Throwable"
    header := .plain none ["java.io.Serializable"]
    members := [
      method "<init>" "()V",
      method "<init>" "(Ljava/lang/String;)V",
      method "<init>" "(Ljava/lang/String;Ljava/lang/Throwable;)V",
      method "<init>" "(Ljava/lang/Throwable;)V",
      method "getMessage" "()Ljava/lang/String;",
      method "getCause" "()Ljava/lang/Throwable;",
      method "printStackTrace" "()V",
      method "addSuppressed" "(Ljava/lang/Throwable;)V"] },
  { kind := .class_, binary := "java.lang.Exception"
    header := .plain (some "java.lang.Throwable") []
    members := [
      method "<init>" "()V",
      method "<init>" "(Ljava/lang/String;)V",
      method "<init>" "(Ljava/lang/String;Ljava/lang/Throwable;)V",
      method "<init>" "(Ljava/lang/Throwable;)V"] },
  { kind := .class_, binary := "java.lang.Error"
    header := .plain (some "java.lang.Throwable") []
    members := [
      method "<init>" "()V",
      method "<init>" "(Ljava/lang/String;)V"] },
  { kind := .class_, binary := "java.lang.RuntimeException"
    header := .plain (some "java.lang.Exception") []
    members := [
      method "<init>" "()V",
      method "<init>" "(Ljava/lang/String;)V",
      method "<init>" "(Ljava/lang/String;Ljava/lang/Throwable;)V",
      method "<init>" "(Ljava/lang/Throwable;)V"] },
  { kind := .class_, binary := "java.lang.IllegalArgumentException"
    header := .plain (some "java.lang.RuntimeException") []
    members := [
      method "<init>" "()V",
      method "<init>" "(Ljava/lang/String;)V"] },
  { kind := .class_, binary := "java.lang.IllegalStateException"
    header := .plain (some "java.lang.RuntimeException") []
    members := [
      method "<init>" "()V",
      method "<init>" "(Ljava/lang/String;)V"] },
  { kind := .class_, binary := "java.lang.UnsupportedOperationException"
    header := .plain (some "java.lang.RuntimeException") []
    members := [
      method "<init>" "()V",
      method "<init>" "(Ljava/lang/String;)V"] },
  { kind := .class_, binary := "java.lang.NullPointerException"
    header := .plain (some "java.lang.RuntimeException") []
    members := [
      method "<init>" "()V",
      method "<init>" "(Ljava/lang/String;)V"] },
  { kind := .class_, binary := "java.lang.ClassCastException"
    header := .plain (some "java.lang.RuntimeException") []
    members := [] },
  { kind := .class_, binary := "java.lang.ArithmeticException"
    header := .plain (some "java.lang.RuntimeException") []
    members := [] },
  { kind := .class_, binary := "java.lang.IndexOutOfBoundsException"
    header := .plain (some "java.lang.RuntimeException") []
    members := [
      method "<init>" "()V",
      method "<init>" "(Ljava/lang/String;)V"] },
  { kind := .class_, binary := "java.lang.ArrayIndexOutOfBoundsException"
    header := .plain (some "java.lang.IndexOutOfBoundsException") []
    members := [] },
  { kind := .class_, binary := "java.lang.InterruptedException"
    header := .plain (some "java.lang.Exception") []
    members := [] },
  { kind := .class_, binary := "java.lang.CloneNotSupportedException"
    header := .plain (some "java.lang.Exception") []
    members := [] },
  { kind := .class_, binary := "java.io.IOException"
    header := .plain (some "java.lang.Exception") []
    members := [
      method "<init>" "()V",
      method "<init>" "(Ljava/lang/String;)V"] },
  { kind := .annotationType, binary := "java.lang.Override"
    header := .plain none []
    members := [] },
  { kind := .annotationType, binary := "java.lang.Deprecated"
    header := .plain none []
    members := [] },
  { kind := .annotationType, binary := "java.lang.FunctionalInterface"
    header := .plain none []
    members := [] },
  { kind := .annotationType, binary := "java.lang.SafeVarargs"
    header := .plain none []
    members := [] },
  { kind := .annotationType, binary := "java.lang.SuppressWarnings"
    header := .plain none []
    members := [
      method "value" "()[Ljava/lang/String;"] },
  { kind := .interface, binary := "java.util.Iterator"
    header := .generic "<E:Ljava/lang/Object;>Ljava/lang/Object;"
    members := [
      method "hasNext" "()Z",
      method "next" "()TE;",
      defaultMethod "remove" "()V"] },
  { kind := .interface, binary := "java.util.Collection"
    header := .generic "<E:Ljava/lang/Object;>Ljava/lang/Object;Ljava/lang/Iterable<TE;>;"
    members := [
      method "size" "()I",
      method "isEmpty" "()Z",
      method "contains" "(Ljava/lang/Object;)Z",
      method "add" "(TE;)Z",
      method "remove" "(Ljava/lang/Object;)Z",
      method "addAll" "(Ljava/util/Collection<+TE;>;)Z",
      method "clear" "()V",
      method "toArray" "()[Ljava/lang/Object;",
      defaultMethod "stream" "()Ljava/util/stream/Stream<TE;>;"] },
  { kind := .interface, binary := "java.util.List"
    header := .generic "<E:Ljava/lang/Object;>Ljava/lang/Object;Ljava/util/Collection<TE;>;"
    members := [
      method "get" "(I)TE;",
      method "set" "(ITE;)TE;",
      method "add" "(ITE;)V",
      method "remove" "(I)TE;",
      method "indexOf" "(Ljava/lang/Object;)I",
      method "subList" "(II)Ljava/util/List<TE;>;",
      defaultMethod "sort" "(Ljava/util/Comparator<-TE;>;)V",
      staticMethod "of" "<E:Ljava/lang/Object;>()Ljava/util/List<TE;>;",
      staticVarargs "of" "<E:Ljava/lang/Object;>([TE;)Ljava/util/List<TE;>;",
      staticMethod "copyOf"
        "<E:Ljava/lang/Object;>(Ljava/util/Collection<+TE;>;)Ljava/util/List<TE;>;"] },
  { kind := .class_, binary := "java.util.ArrayList"
    header := .generic "<E:Ljava/lang/Object;>Ljava/lang/Object;Ljava/util/List<TE;>;"
    members := [
      method "<init>" "()V",
      method "<init>" "(I)V",
      method "<init>" "(Ljava/util/Collection<+TE;>;)V"] },
  { kind := .class_, binary := "java.util.LinkedList"
    header := .generic "<E:Ljava/lang/Object;>Ljava/lang/Object;Ljava/util/List<TE;>;"
    members := [
      method "<init>" "()V",
      method "addFirst" "(TE;)V",
      method "getFirst" "()TE;"] },
  { kind := .interface, binary := "java.util.Set"
    header := .generic "<E:Ljava/lang/Object;>Ljava/lang/Object;Ljava/util/Collection<TE;>;"
    members := [
      staticVarargs "of" "<E:Ljava/lang/Object;>([TE;)Ljava/util/Set<TE;>;"] },
  { kind := .class_, binary := "java.util.HashSet"
    header := .generic "<E:Ljava/lang/Object;>Ljava/lang/Object;Ljava/util/Set<TE;>;"
    members := [
      method "<init>" "()V",
      method "<init>" "(Ljava/util/Collection<+TE;>;)V"] },
  { kind := .class_, binary := "java.util.LinkedHashSet"
    header := .generic "<E:Ljava/lang/Object;>Ljava/util/HashSet<TE;>;Ljava/util/Set<TE;>;"
    members := [
      method "<init>" "()V"] },
  { kind := .interface, binary := "java.util.Map"
    header := .generic "<K:Ljava/lang/Object;V:Ljava/lang/Object;>Ljava/lang/Object;"
    members := [
      method "size" "()I",
      method "isEmpty" "()Z",
      method "get" "(Ljava/lang/Object;)TV;",
      defaultMethod "getOrDefault" "(Ljava/lang/Object;TV;)TV;",
      method "put" "(TK;TV;)TV;",
      defaultMethod "putIfAbsent" "(TK;TV;)TV;",
      method "remove" "(Ljava/lang/Object;)TV;",
      method "containsKey" "(Ljava/lang/Object;)Z",
      method "containsValue" "(Ljava/lang/Object;)Z",
      method "keySet" "()Ljava/util/Set<TK;>;",
      method "values" "()Ljava/util/Collection<TV;>;",
      method "entrySet" "()Ljava/util/Set<Ljava/util/Map$Entry<TK;TV;>;>;",
      defaultMethod "computeIfAbsent" "(TK;Ljava/util/function/Function<-TK;+TV;>;)TV;",
      defaultMethod "forEach" "(Ljava/util/function/BiConsumer<-TK;-TV;>;)V",
      method "clear" "()V",
      staticMethod "of" "<K:Ljava/lang/Object;V:Ljava/lang/Object;>()Ljava/util/Map<TK;TV;>;"] },
  { kind := .interface, binary := "java.util.Map$Entry"
    header := .generic "<K:Ljava/lang/Object;V:Ljava/lang/Object;>Ljava/lang/Object;"
    members := [
      method "getKey" "()TK;",
      method "getValue" "()TV;",
      method "setValue" "(TV;)TV;"] },
  { kind := .class_, binary := "java.util.HashMap"
    header := .generic
      "<K:Ljava/lang/Object;V:Ljava/lang/Object;>Ljava/lang/Object;Ljava/util/Map<TK;TV;>;"
    members := [
      method "<init>" "()V",
      method "<init>" "(I)V"] },
  { kind := .class_, binary := "java.util.LinkedHashMap"
    header := .generic
      "<K:Ljava/lang/Object;V:Ljava/lang/Object;>Ljava/util/HashMap<TK;TV;>;Ljava/util/Map<TK;TV;>;"
    members := [
      method "<init>" "()V"] },
  { kind := .class_, binary := "java.util.TreeMap"
    header := .generic
      "<K:Ljava/lang/Object;V:Ljava/lang/Object;>Ljava/lang/Object;Ljava/util/Map<TK;TV;>;"
    members := [
      method "<init>" "()V"] },
  { kind := .interface, binary := "java.util.Comparator"
    header := .generic "<T:Ljava/lang/Object;>Ljava/lang/Object;"
    members := [
      method "compare" "(TT;TT;)I",
      defaultMethod "reversed" "()Ljava/util/Comparator<TT;>;",
      staticMethod "comparing"
        ("<T:Ljava/lang/Object;U::Ljava/lang/Comparable<-TU;>;>" ++
          "(Ljava/util/function/Function<-TT;+TU;>;)Ljava/util/Comparator<TT;>;")] },
  { kind := .class_, binary := "java.util.Optional"
    header := .generic "<T:Ljava/lang/Object;>Ljava/lang/Object;"
    members := [
      staticMethod "of" "<T:Ljava/lang/Object;>(TT;)Ljava/util/Optional<TT;>;",
      staticMethod "ofNullable" "<T:Ljava/lang/Object;>(TT;)Ljava/util/Optional<TT;>;",
      staticMethod "empty" "<T:Ljava/lang/Object;>()Ljava/util/Optional<TT;>;",
      method "isPresent" "()Z",
      method "isEmpty" "()Z",
      method "get" "()TT;",
      method "orElse" "(TT;)TT;",
      method "ifPresent" "(Ljava/util/function/Consumer<-TT;>;)V",
      method "map"
        "<U:Ljava/lang/Object;>(Ljava/util/function/Function<-TT;+TU;>;)Ljava/util/Optional<TU;>;"] },
  { kind := .class_, binary := "java.util.Objects"
    header := .plain none []
    members := [
      staticMethod "equals" "(Ljava/lang/Object;Ljava/lang/Object;)Z",
      staticVarargs "hash" "([Ljava/lang/Object;)I",
      staticMethod "isNull" "(Ljava/lang/Object;)Z",
      staticMethod "requireNonNull" "<T:Ljava/lang/Object;>(TT;)TT;"] },
  { kind := .class_, binary := "java.util.Arrays"
    header := .plain none []
    members := [
      staticVarargs "asList" "<T:Ljava/lang/Object;>([TT;)Ljava/util/List<TT;>;",
      staticMethod "sort" "([I)V",
      staticMethod "toString" "([Ljava/lang/Object;)Ljava/lang/String;"] },
  { kind := .class_, binary := "java.util.Collections"
    header := .plain none []
    members := [
      staticMethod "emptyList" "<T:Ljava/lang/Object;>()Ljava/util/List<TT;>;",
      staticMethod "unmodifiableList"
        "<T:Ljava/lang/Object;>(Ljava/util/List<+TT;>;)Ljava/util/List<TT;>;",
      staticMethod "sort" "<T::Ljava/lang/Comparable<-TT;>;>(Ljava/util/List<TT;>;)V"] },
  { kind := .interface, binary := "java.util.function.Function"
    header := .generic "<T:Ljava/lang/Object;R:Ljava/lang/Object;>Ljava/lang/Object;"
    members := [
      method "apply" "(TT;)TR;",
      defaultMethod "andThen"
        ("<V:Ljava/lang/Object;>(Ljava/util/function/Function<-TR;+TV;>;)" ++
          "Ljava/util/function/Function<TT;TV;>;"),
      staticMethod "identity" "<T:Ljava/lang/Object;>()Ljava/util/function/Function<TT;TT;>;"] },
  { kind := .interface, binary := "java.util.function.BiFunction"
    header := .generic
      "<T:Ljava/lang/Object;U:Ljava/lang/Object;R:Ljava/lang/Object;>Ljava/lang/Object;"
    members := [
      method "apply" "(TT;TU;)TR;"] },
  { kind := .interface, binary := "java.util.function.UnaryOperator"
    header := .generic
      "<T:Ljava/lang/Object;>Ljava/lang/Object;Ljava/util/function/Function<TT;TT;>;"
    members := [] },
  { kind := .interface, binary := "java.util.function.Consumer"
    header := .generic "<T:Ljava/lang/Object;>Ljava/lang/Object;"
    members := [
      method "accept" "(TT;)V"] },
  { kind := .interface, binary := "java.util.function.BiConsumer"
    header := .generic "<T:Ljava/lang/Object;U:Ljava/lang/Object;>Ljava/lang/Object;"
    members := [
      method "accept" "(TT;TU;)V"] },
  { kind := .interface, binary := "java.util.function.Supplier"
    header := .generic "<T:Ljava/lang/Object;>Ljava/lang/Object;"
    members := [
      method "get" "()TT;"] },
  { kind := .interface, binary := "java.util.function.Predicate"
    header := .generic "<T:Ljava/lang/Object;>Ljava/lang/Object;"
    members := [
      method "test" "(TT;)Z",
      defaultMethod "negate" "()Ljava/util/function/Predicate<TT;>;"] },
  { kind := .interface, binary := "java.util.stream.Stream"
    header := .generic "<T:Ljava/lang/Object;>Ljava/lang/Object;Ljava/lang/AutoCloseable;"
    members := [
      method "filter" "(Ljava/util/function/Predicate<-TT;>;)Ljava/util/stream/Stream<TT;>;",
      method "map"
        "<R:Ljava/lang/Object;>(Ljava/util/function/Function<-TT;+TR;>;)Ljava/util/stream/Stream<TR;>;",
      method "forEach" "(Ljava/util/function/Consumer<-TT;>;)V",
      defaultMethod "toList" "()Ljava/util/List<TT;>;",
      method "findFirst" "()Ljava/util/Optional<TT;>;",
      method "count" "()J",
      method "anyMatch" "(Ljava/util/function/Predicate<-TT;>;)Z",
      staticVarargs "of" "<T:Ljava/lang/Object;>([TT;)Ljava/util/stream/Stream<TT;>;"] }]

/-- The supertypes of a header: the superclass unless the type is an interface, the interfaces, and
what is known of their arguments. -/
def Header.apply (d : TypeDeclaration) : Header → Except SignatureError TypeDeclaration
  | plain superclass interfaces => .ok { d with superclass, interfaces }
  | generic signature => do
    let h ← GenericSignature.parseClass signature
    let superclass := if d.kind.isInterface then none else some h.superclass
    pure
      { d with
        superclass := superclass.bind GenericType.className?
        interfaces := h.interfaces.filterMap GenericType.className?
        typeParams := h.typeParams
        genericSupers := superclass.toList ++ h.interfaces }

/-- Classes descend from the root class, annotations from the common annotation interface. -/
def addImplicit (d : TypeDeclaration) : TypeDeclaration :=
  match d.kind with
  | .annotationType => { d with interfaces := d.interfaces ++ ["java.lang.annotation.Annotation"] }
  | .class_ =>
    if d.superclass.isNone && d.binary != objectName then
      { d with superclass := some objectName }
    else d
  | _ => d

def addMethod (d : TypeDeclaration) (name signature : String) (isStatic isVarargs hasBody : Bool) :
    Except SignatureError TypeDeclaration := do
  let m ← GenericSignature.parseMethod signature
  let m := m.withBounds d.typeParams
  let method : MethodDeclaration :=
    { name, descriptor := m.erasure, isStatic, isVarargs
      isAbstract := d.kind.isInterface && !isStatic && !hasBody }
  pure { d with methods := d.methods ++ [method.withGeneric m] }

def Member.addTo (d : TypeDeclaration) : Member → Except SignatureError TypeDeclaration
  | field name signature => do
    let t ← GenericSignature.parseField signature
    let t := t.withBounds d.typeParams
    let f : FieldDeclaration := { name, type := t.erasure, isStatic := true }
    pure { d with fields := d.fields ++ [f.withGeneric t] }
  | method name signature => addMethod d name signature false false false
  | staticMethod name signature => addMethod d name signature true false false
  | staticVarargs name signature => addMethod d name signature true true false
  | varargs name signature => addMethod d name signature false true false
  | defaultMethod name signature => addMethod d name signature false false true

def Entry.declaration (e : Entry) : Except SignatureError TypeDeclaration := do
  let bare : TypeDeclaration :=
    { binary := e.binary, kind := e.kind, origin := .catalogue
      outer := (Text.cutLast '$' e.binary).map Prod.fst }
  let d ← e.header.apply bare
  e.members.foldlM Member.addTo (addImplicit d)

/-- The declarations of the catalogue, in its order. -/
def declarations : List TypeDeclaration :=
  entries.filterMap fun e => e.declaration.toOption

end Catalogue

namespace TypeIndex

/-- Adds types and links those that are members of others. -/
def install (index : TypeIndex) (declarations : List TypeDeclaration) : TypeIndex :=
  (index.insertAll declarations).addMembers (declarations.filterMap memberLink?)

/-- The index of the catalogue alone. -/
def catalogue : TypeIndex := ({} : TypeIndex).install Catalogue.declarations

end TypeIndex

end Renaming.Java
